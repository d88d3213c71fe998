import Mullion.Lib.Fields

/-!
# Merging settings

`settingsMerge.ts` and `updateSettings` of `store/slices/ui.ts`: an edit of the settings is merged
into the settings of the page at once, and into a patch that is sent later.

The two merges differ: `deepMerge` goes by the keys of the settings and checks types against the
defaults, `mergePartialPatch` goes by the keys of the second patch, and `withWholeProviderMap`
replaces the one map whose keys are data as a whole. Asked is whether the settings still come out
the same when edits are sent in groups (`batched_settings`), where each edit is well typed. On such
edits both merges are the same operation without types and defaults, `put`, and `put` of two patches
one after the other is `put` of their merge: an induction on the fields, and from it on the groups.
A key that a patch may not carry breaks it (`forbidden_key_is_dropped`), and what no edit names
stays as it was.

A default that is missing is `none`; the items of an array are never read.
-/

namespace Mullion
namespace SettingsMerge

open Fields

/-! ## The code -/

inductive Value
  | null
  | bool (value : Bool)
  | number (value : ℚ)
  | string (value : String)
  | array (items : List Value)
  | object (fields : List (String × Value))

abbrev Object := List (String × Value)

inductive Kind
  | null
  | bool
  | number
  | string
  | array
  | object
  deriving DecidableEq, Repr

namespace Value

def kind : Value → Kind
  | null => .null
  | bool _ => .bool
  | number _ => .number
  | string _ => .string
  | array _ => .array
  | object _ => .object

def isNull (v : Value) : Bool := v.kind = .null

def isArray (v : Value) : Bool := v.kind = .array

def isPlainObject (v : Value) : Bool := v.kind = .object

end Value

def sameType (base value : Value) (defaultValue : Option Value) : Bool :=
  if base.isPlainObject || value.isPlainObject then false
  else if base.isArray then value.isArray
  else if value.isArray then false
  else if defaultValue.any Value.isNull then value.isNull || value.kind = .string
  else if base.isNull || value.isNull then false
  else base.kind = value.kind

mutual

/-- The value of one key of the settings. -/
def mergeValue : Value → Option Value → Option Value → Value
  | baseValue, none, _ => baseValue
  | .object base, some (.object patch), defaultValue =>
    .object (deepMerge base patch
      (match defaultValue with
      | some (.object defaults) => defaults
      | _ => base))
  | baseValue, some value, defaultValue =>
    if sameType baseValue value defaultValue then value else baseValue

def deepMerge : Object → Object → Object → Object
  | [], _, _ => []
  | (key, baseValue) :: rest, patch, defaults =>
    (key, mergeValue baseValue (get patch key) (get defaults key)) :: deepMerge rest patch defaults

end

def FORBIDDEN_PATCH_KEYS : List String := ["__proto__", "constructor", "prototype"]

mutual

/-- The value of one key of the second patch. -/
def pendingValue (baseValue : Option Value) : Value → Value
  | .object patch =>
    match baseValue with
    | some (.object base) => .object (mergeEntries base base patch)
    | _ => .object patch
  | value => value

/-- The loop over the entries of the second patch. -/
def mergeEntries (base : Object) : Object → Object → Object
  | result, [] => result
  | result, (key, value) :: rest =>
    mergeEntries base
      (if key ∈ FORBIDDEN_PATCH_KEYS then result
      else set result key (pendingValue (get base key) value)) rest

end

def mergePartialPatch (base patch : Object) : Object := mergeEntries base base patch

/-- `patch.runway.providerMap`, if it is an object. -/
def providerMapOf (patch : Object) : Option Object :=
  match get patch "runway" with
  | some (.object runway) =>
    match get runway "providerMap" with
    | some (.object map) => some map
    | _ => none
  | _ => none

/-- The map replaces the one that was merged. -/
def replaceMap (merged : Object) : Option Object → Object
  | none => merged
  | some map =>
    match get merged "runway" with
    | some (.object runway) =>
      set merged "runway" (.object (set runway "providerMap" (.object map)))
    | _ => merged

def withWholeProviderMap (merged patch : Object) : Object :=
  replaceMap merged (providerMapOf patch)

/-- The settings after a patch. -/
def applyPatch (defaults settings patch : Object) : Object :=
  withWholeProviderMap (deepMerge settings patch defaults) patch

/-- The pending patch after one more. -/
def accumulate (pendingPatch : Option Object) (patch : Object) : Object :=
  match pendingPatch with
  | some pendingPatch => withWholeProviderMap (mergePartialPatch pendingPatch patch) patch
  | none => patch

structure Store where
  settings : Object
  pendingPatch : Option Object := none
  /-- The bodies of the requests that went out. -/
  sent : List Object := []

namespace Store

def updateSettings (defaults : Object) (s : Store) (patch : Object) : Store :=
  { s with
    settings := applyPatch defaults s.settings patch
    pendingPatch := some (accumulate s.pendingPatch patch) }

def flushPendingPatch (s : Store) : Store :=
  match s.pendingPatch with
  | none => s
  | some patch => { s with pendingPatch := none, sent := s.sent ++ [patch] }

/-- Some edits, and then the timer. -/
def editGroup (defaults : Object) (s : Store) (group : List Object) : Store :=
  (group.foldl (updateSettings defaults) s).flushPendingPatch

end Store

/-! ## What is promised -/

/-- A patch may carry this at a value of the settings that is no object. -/
def leafTyped (base value : Value) (defaultValue : Option Value) : Bool :=
  if defaultValue.any Value.isNull then value.isNull || value.kind = .string
  else base.kind = value.kind

def fieldsOf : Option Value → Object
  | some (.object fields) => fields
  | _ => []

mutual

/-- The value is well typed for this value of the settings. -/
def typedAt (allowed : String → Bool) : Value → Option Value → Option Value → Bool
  | _, none, _ => true
  | .object base, some value, defaultValue =>
    match value with
    | .object patch => typed allowed base patch (fieldsOf defaultValue)
    | _ => false
  | base, some value, defaultValue => leafTyped base value defaultValue

/-- Objects where the settings have objects, and values of the type at the leaves; the keys of the
settings that the patch has are allowed. -/
def typed (allowed : String → Bool) : Object → Object → Object → Bool
  | [], _, _ => true
  | (key, base) :: rest, patch, defaults =>
    ((get patch key).isNone || allowed key) && typedAt allowed base (get patch key)
      (get defaults key) && typed allowed rest patch defaults

end

/-- The patch without its provider map. -/
def stripMap : Value → Value
  | .object runway => .object (erase runway "providerMap")
  | value => value

def strip (patch : Object) : Object :=
  mapValues (fun key value => if key = "runway" then stripMap value else value) patch

/-- The patch is well typed for the settings; its provider map is any object. -/
def WellTyped (allowed : String → Bool) (defaults settings patch : Object) : Prop :=
  typed allowed settings (strip patch) defaults = true ∧
    ∀ runway patchRunway value, get settings "runway" = some (.object runway) →
      get patch "runway" = some (.object patchRunway) →
      get patchRunway "providerMap" = some value → value.isPlainObject = true

/-- A key that `mergePartialPatch` keeps. -/
def mergeable (key : String) : Bool := key ∉ FORBIDDEN_PATCH_KEYS

/-- The value at a path of keys. -/
def at? : Value → List String → Option Value
  | value, [] => some value
  | .object fields, key :: path => (get fields key).bind fun value => at? value path
  | _, _ :: _ => none

/-- The patch has a value at the path, or a provider map and the path is one of its keys. -/
def Names (patch : Object) (path : List String) : Prop :=
  (at? (.object patch) path).isSome ∨
    (providerMapOf patch).isSome ∧ ["runway", "providerMap"] <+: path

/-! ## One key at a time -/

theorem deepMerge_eq (settings patch defaults : Object) :
    deepMerge settings patch defaults = mapValues
      (fun key value => mergeValue value (get patch key) (get defaults key)) settings := by
  induction settings with
  | nil => rfl
  | cons e settings ih =>
    obtain ⟨key, value⟩ := e
    rw [deepMerge, ih]
    rfl

theorem typed_iff {allowed : String → Bool} {settings patch defaults : Object} :
    typed allowed settings patch defaults = true ↔ ∀ e ∈ settings,
      ((get patch e.1).isNone || allowed e.1) = true ∧
        typedAt allowed e.2 (get patch e.1) (get defaults e.1) = true := by
  induction settings with
  | nil => simp [typed]
  | cons e settings ih =>
    obtain ⟨key, value⟩ := e
    rw [typed, Bool.and_eq_true, Bool.and_eq_true, ih, List.forall_mem_cons]

theorem get_mem {fields : Object} {key : String} {value : Value} (h : get fields key = some value) :
    (key, value) ∈ fields := by
  induction fields with
  | nil => cases h
  | cons e fields ih =>
    obtain ⟨k, v⟩ := e
    rw [Fields.get] at h
    cases hrest : get fields key with
    | some w =>
      rw [hrest] at h
      cases h
      exact List.mem_cons_of_mem _ (ih hrest)
    | none =>
      rw [hrest, Option.none_or, Option.ite_none_right_eq_some] at h
      obtain ⟨rfl, h⟩ := h
      cases h
      exact List.mem_cons_self

theorem get_mergeEntries (base result patch : Object) (key : String) :
    get (mergeEntries base result patch) key =
      if key ∈ FORBIDDEN_PATCH_KEYS then get result key
      else
        match get patch key with
        | none => get result key
        | some value => some (pendingValue (get base key) value) := by
  induction patch generalizing result with
  | nil => rw [mergeEntries]; simp [Fields.get]
  | cons e patch ih =>
    obtain ⟨k, v⟩ := e
    rw [mergeEntries, ih, Fields.get]
    by_cases hkey : key ∈ FORBIDDEN_PATCH_KEYS
    · rw [if_pos hkey, if_pos hkey]
      split
      case isTrue => rfl
      case isFalse hk => exact get_set_of_ne _ _ fun heq => hk (heq ▸ hkey)
    · rw [if_neg hkey, if_neg hkey]
      cases hrest : get patch key with
      | some w => rfl
      | none =>
        dsimp only
        by_cases hk : k = key
        · subst hk
          rw [if_neg hkey, if_pos rfl, get_set_self]
          rfl
        · rw [if_neg hk]
          split
          case isTrue => rfl
          case isFalse => exact get_set_of_ne _ _ (Ne.symm hk)

/-- One value over another, as patches are merged. -/
def onto (first second : Option Value) : Option Value :=
  match second with
  | none => first
  | some value => some (pendingValue first value)

theorem get_mergePartialPatch (base patch : Object) (key : String) :
    get (mergePartialPatch base patch) key =
      if key ∈ FORBIDDEN_PATCH_KEYS then get base key else onto (get base key) (get patch key) := by
  rw [mergePartialPatch, get_mergeEntries]
  cases get patch key <;> rfl

theorem pendingValue_leaf (first : Option Value) {value : Value}
    (h : value.isPlainObject = false) : pendingValue first value = value := by
  cases value with
  | object fields => cases h
  | _ => rfl

theorem onto_leaf (first : Option Value) {value : Value} (h : value.isPlainObject = false) :
    onto first (some value) = some value := by
  rw [onto, pendingValue_leaf first h]

theorem onto_object (base patch : Object) :
    onto (some (.object base)) (some (.object patch)) =
      some (.object (mergePartialPatch base patch)) := rfl

/-! ## Merging without types -/

mutual

/-- What a well typed value does to a value of the settings. -/
def putAt : Value → Option Value → Value
  | base, none => base
  | .object base, some value =>
    match value with
    | .object patch => .object (put base patch)
    | _ => .object base
  | base, some value =>
    if value.isPlainObject || base.isArray ≠ value.isArray then base else value

def put : Object → Object → Object
  | [], _ => []
  | (key, base) :: rest, patch => (key, putAt base (get patch key)) :: put rest patch

end

theorem put_eq (settings patch : Object) :
    put settings patch = mapValues (fun key value => putAt value (get patch key)) settings := by
  induction settings with
  | nil => rfl
  | cons e settings ih =>
    obtain ⟨key, value⟩ := e
    rw [put, ih]
    rfl

theorem putAt_none (base : Value) : putAt base none = base := by
  cases base <;> rfl

theorem putAt_leaf {base value : Value} (h : base.isPlainObject = false) :
    putAt base (some value) =
      if value.isPlainObject || base.isArray ≠ value.isArray then base else value := by
  cases base with
  | object fields => cases h
  | _ => rfl

theorem typedAt_none (allowed : String → Bool) (base : Value) (defaultValue : Option Value) :
    typedAt allowed base none defaultValue = true := by
  cases base <;> rfl

theorem typedAt_leaf {allowed : String → Bool} {base value : Value} {defaultValue : Option Value}
    (h : base.isPlainObject = false) :
    typedAt allowed base (some value) defaultValue = leafTyped base value defaultValue := by
  cases base with
  | object fields => cases h
  | _ => rfl

/-- An object has a well typed value only if that is an object. -/
theorem object_of_typedAt {allowed : String → Bool} {base : Object} {value : Value}
    {defaultValue : Option Value}
    (h : typedAt allowed (.object base) (some value) defaultValue = true) :
    ∃ patch, value = .object patch ∧ typed allowed base patch (fieldsOf defaultValue) = true := by
  cases value with
  | object patch => exact ⟨patch, rfl, h⟩
  | _ => exact Bool.noConfusion h

/-- A well typed value at a leaf is no object. -/
theorem leaf_of_leafTyped {base value : Value} {defaultValue : Option Value}
    (hbase : base.isPlainObject = false) (h : leafTyped base value defaultValue = true) :
    value.isPlainObject = false := by
  rw [leafTyped] at h
  cases value with
  | object patch =>
    rw [Value.isPlainObject, decide_eq_false_iff_not] at hbase
    split at h
    · cases h
    · exact absurd (of_decide_eq_true h) hbase
  | _ => rfl

/-- A value over a leaf. -/
theorem mergeValue_of_leaf {base : Value} (hbase : base.isPlainObject = false) (value : Value)
    (defaultValue : Option Value) : mergeValue base (some value) defaultValue =
      if sameType base value defaultValue then value else base := by
  cases base with
  | object fields => cases hbase
  | _ => cases value <;> rfl

/-- A well typed value at a leaf is merged as if there were no types. -/
theorem mergeValue_leaf {base value : Value} {defaultValue : Option Value}
    (hbase : base.isPlainObject = false) (h : leafTyped base value defaultValue = true) :
    mergeValue base (some value) defaultValue = putAt base (some value) := by
  have hvalue := leaf_of_leafTyped hbase h
  rw [putAt_leaf hbase]
  rw [mergeValue_of_leaf hbase, sameType, hbase, hvalue]
  rw [leafTyped] at h
  by_cases hdefault : defaultValue.any Value.isNull = true
  · rw [if_pos hdefault] at h
    rw [if_pos hdefault]
    cases base <;> cases value <;> simp_all [Value.kind, Value.isNull, Value.isArray]
  · rw [if_neg hdefault] at h
    rw [if_neg hdefault]
    cases base <;> cases value <;> simp_all [Value.kind, Value.isNull, Value.isArray]

/-! ## A well typed patch is put -/

/-- A leaf that is well typed without a default is so with a default that the value is well typed
for. -/
theorem leafTyped_free {allowed : String → Bool} {base value : Value} {default : Option Value}
    (h : leafTyped base value none = true)
    (hdefault : ∀ v, default = some v → typedAt allowed v (some value) none = true) :
    leafTyped base value default = true := by
  rw [leafTyped]
  split
  case isTrue hnull =>
    cases default with
    | none => cases hnull
    | some v =>
      have hvalue := hdefault v rfl
      cases v with
      | null =>
        have hkind : Kind.null = value.kind := of_decide_eq_true hvalue
        simp [Value.isNull, hkind.symm]
      | _ => cases hnull
  case isFalse => exact h

mutual

/-- Where there are no defaults, the settings themselves are taken for them. -/
theorem mergeValue_free (allowed : String → Bool) : ∀ (base : Value) (value default : Option Value),
    typedAt allowed base value none = true →
    (∀ v, default = some v → typedAt allowed v value none = true) →
    mergeValue base value default = putAt base value
  | base, none, _, _, _ => by
    rw [putAt_none]
    cases base <;> rfl
  | .object base, some value, default, h, hdefault => by
    obtain ⟨patch, rfl, hpatch⟩ := object_of_typedAt h
    show Value.object (deepMerge base patch _) = .object (put base patch)
    rw [deepMerge_free allowed base patch _ hpatch]
    cases default with
    | none => exact hpatch
    | some v =>
      have hv := hdefault v rfl
      cases v with
      | object defaults =>
        obtain ⟨patch', heq, hpatch'⟩ := object_of_typedAt hv
        cases heq
        exact hpatch'
      | _ => exact hpatch
  | .null, some value, default, h, hdefault | .bool _, some value, default, h, hdefault
  | .number _, some value, default, h, hdefault | .string _, some value, default, h, hdefault
  | .array _, some value, default, h, hdefault => by
    rw [typedAt_leaf rfl] at h
    exact mergeValue_leaf rfl (leafTyped_free h hdefault)

theorem deepMerge_free (allowed : String → Bool) : ∀ (settings patch defaults : Object),
    typed allowed settings patch [] = true → typed allowed defaults patch [] = true →
    deepMerge settings patch defaults = put settings patch
  | [], _, _, _, _ => rfl
  | (key, base) :: rest, patch, defaults, h, hdefaults => by
    rw [typed, Bool.and_eq_true, Bool.and_eq_true] at h
    obtain ⟨⟨-, hbase⟩, hrest⟩ := h
    rw [deepMerge, put, deepMerge_free allowed rest patch defaults hrest hdefaults]
    rw [mergeValue_free allowed base (get patch key) (get defaults key) hbase]
    intro v hv
    exact (typed_iff.1 hdefaults (key, v) (get_mem hv)).2

end

mutual

/-- **A well typed value** is merged as if there were no types. -/
theorem mergeValue_eq_putAt (allowed : String → Bool) :
    ∀ (base : Value) (value default : Option Value),
      typedAt allowed base value default = true → mergeValue base value default = putAt base value
  | base, none, _, _ => by
    rw [putAt_none]
    cases base <;> rfl
  | .object base, some value, default, h => by
    obtain ⟨patch, rfl, hpatch⟩ := object_of_typedAt h
    show Value.object (deepMerge base patch _) = .object (put base patch)
    cases default with
    | none => rw [deepMerge_free allowed base patch base hpatch hpatch]
    | some v =>
      cases v with
      | object defaults => rw [deepMerge_eq_put allowed base patch defaults hpatch]
      | _ => rw [deepMerge_free allowed base patch base hpatch hpatch]
  | .null, some value, default, h | .bool _, some value, default, h
  | .number _, some value, default, h | .string _, some value, default, h
  | .array _, some value, default, h => by
    rw [typedAt_leaf rfl] at h
    exact mergeValue_leaf rfl h

theorem deepMerge_eq_put (allowed : String → Bool) : ∀ (settings patch defaults : Object),
    typed allowed settings patch defaults = true →
      deepMerge settings patch defaults = put settings patch
  | [], _, _, _ => rfl
  | (key, base) :: rest, patch, defaults, h => by
    rw [typed, Bool.and_eq_true, Bool.and_eq_true] at h
    obtain ⟨⟨-, hbase⟩, hrest⟩ := h
    rw [deepMerge, put, deepMerge_eq_put allowed rest patch defaults hrest,
      mergeValue_eq_putAt allowed base (get patch key) (get defaults key) hbase]

end

/-! ## Two patches -/

/-- At a leaf the second of two well typed values counts, or neither does. -/
theorem putAt_putAt_leaf {base first second : Value} {default : Option Value}
    (hbase : base.isPlainObject = false) (hfirst : leafTyped base first default = true)
    (hsecond : leafTyped base second default = true) :
    putAt (putAt base (some first)) (some second) = putAt base (some second) := by
  have hfirstLeaf := leaf_of_leafTyped hbase hfirst
  have hsecondLeaf := leaf_of_leafTyped hbase hsecond
  rw [putAt_leaf hbase, putAt_leaf hbase]
  have hagree : first.isArray = second.isArray := by
    rw [leafTyped] at hfirst hsecond
    split at hfirst <;> split at hsecond
    · cases first <;> cases second <;> simp_all [Value.isNull, Value.kind, Value.isArray]
    · contradiction
    · contradiction
    · rw [Value.isArray, Value.isArray, ← of_decide_eq_true hfirst, ← of_decide_eq_true hsecond]
  rw [hfirstLeaf, hsecondLeaf, hagree, Bool.false_or]
  split
  case isTrue hne => rw [putAt_leaf hbase, hsecondLeaf, Bool.false_or, if_pos hne]
  case isFalse => rw [putAt_leaf hfirstLeaf, hsecondLeaf, Bool.false_or, if_neg (by simp [hagree])]

/-- The value stays well typed when another one was put before it. -/
theorem leafTyped_putAt {base first second : Value} {default : Option Value}
    (hbase : base.isPlainObject = false) (hfirst : leafTyped base first default = true)
    (hsecond : leafTyped base second default = true) :
    leafTyped (putAt base (some first)) second default = true := by
  rw [putAt_leaf hbase]
  split
  case isTrue => exact hsecond
  case isFalse =>
    rw [leafTyped] at hfirst hsecond ⊢
    split
    case isTrue hnull => rwa [if_pos hnull] at hsecond
    case isFalse hnull =>
      rw [if_neg hnull] at hfirst hsecond
      rw [← of_decide_eq_true hfirst]
      exact hsecond

theorem putAt_leaf_leaf {base value : Value} (hbase : base.isPlainObject = false) :
    (putAt base (some value)).isPlainObject = false := by
  rw [putAt_leaf hbase]
  split
  case isTrue => exact hbase
  case isFalse h =>
    rw [Bool.or_eq_true, not_or] at h
    exact Bool.eq_false_of_not_eq_true h.1

mutual

/-- **Two well typed values**: one after the other, or the second over the first. -/
theorem putAt_putAt : ∀ (base : Value) (first second default : Option Value),
    typedAt mergeable base first default = true → typedAt mergeable base second default = true →
      putAt (putAt base first) second = putAt base (onto first second) ∧
        typedAt mergeable (putAt base first) second default = true ∧
        typedAt mergeable base (onto first second) default = true
  | base, first, none, default, hfirst, _ => by
    refine ⟨?_, typedAt_none _ _ _, hfirst⟩
    rw [putAt_none]
    rfl
  | base, none, some second, default, _, hsecond => by
    have honto : onto none (some second) = some second := by cases second <;> rfl
    rw [putAt_none, honto]
    exact ⟨rfl, hsecond, hsecond⟩
  | .object base, some first, some second, default, hfirst, hsecond => by
    obtain ⟨p, rfl, hp⟩ := object_of_typedAt hfirst
    obtain ⟨q, rfl, hq⟩ := object_of_typedAt hsecond
    obtain ⟨hput, htyped, honto⟩ := put_put base p q (fieldsOf default) hp hq
    rw [onto_object]
    exact ⟨congrArg Value.object hput, htyped, honto⟩
  | .null, some first, some second, default, hfirst, hsecond
  | .bool _, some first, some second, default, hfirst, hsecond
  | .number _, some first, some second, default, hfirst, hsecond
  | .string _, some first, some second, default, hfirst, hsecond
  | .array _, some first, some second, default, hfirst, hsecond => by
    rw [typedAt_leaf rfl] at hfirst hsecond
    rw [onto_leaf _ (leaf_of_leafTyped rfl hsecond), typedAt_leaf (putAt_leaf_leaf rfl),
      typedAt_leaf rfl]
    exact ⟨putAt_putAt_leaf rfl hfirst hsecond, leafTyped_putAt rfl hfirst hsecond, hsecond⟩

theorem put_put : ∀ (settings p q defaults : Object),
    typed mergeable settings p defaults = true → typed mergeable settings q defaults = true →
      put (put settings p) q = put settings (mergePartialPatch p q) ∧
        typed mergeable (put settings p) q defaults = true ∧
        typed mergeable settings (mergePartialPatch p q) defaults = true
  | [], _, _, _, _, _ => ⟨rfl, rfl, rfl⟩
  | (key, base) :: rest, p, q, defaults, hp, hq => by
    rw [typed, Bool.and_eq_true, Bool.and_eq_true] at hp hq
    obtain ⟨⟨hpkey, hpbase⟩, hprest⟩ := hp
    obtain ⟨⟨hqkey, hqbase⟩, hqrest⟩ := hq
    obtain ⟨hput, htyped, honto⟩ := putAt_putAt base (get p key) (get q key) (get defaults key)
      hpbase hqbase
    obtain ⟨hputs, htypeds, hontos⟩ := put_put rest p q defaults hprest hqrest
    have hget : get (mergePartialPatch p q) key = onto (get p key) (get q key) := by
      rw [get_mergePartialPatch]
      split
      case isTrue hforbidden =>
        have hnone : get q key = none := by
          simpa [mergeable, hforbidden] using hqkey
        rw [hnone]
        rfl
      case isFalse => rfl
    have hkey : ((get (mergePartialPatch p q) key).isNone || mergeable key) = true := by
      cases hmerge : mergeable key with
      | true => exact Bool.or_true _
      | false =>
        rw [hmerge, Bool.or_false] at hpkey hqkey
        rw [hget, Option.isNone_iff_eq_none.1 hpkey, Option.isNone_iff_eq_none.1 hqkey]
        rfl
    rw [put, put, put, typed, typed, hkey, hqkey, hget, hput, htyped, honto, hputs, htypeds, hontos]
    exact ⟨rfl, rfl, rfl⟩

end

/-! ## The provider map -/

theorem get_strip (patch : Object) (key : String) :
    get (strip patch) key =
      if key = "runway" then (get patch key).map stripMap else get patch key := by
  rw [strip, get_mapValues]
  split
  case isTrue => rfl
  case isFalse => exact Option.map_id' ..

/-- The two values are the same, or objects with the same value at every key. -/
inductive Agree : Option Value → Option Value → Prop
  | refl (v : Option Value) : Agree v v
  | object {f g : Object} (h : ∀ key, get f key = get g key) :
      Agree (some (.object f)) (some (.object g))

theorem Agree.putAt {v w : Option Value} (h : Agree v w) (base : Value) :
    SettingsMerge.putAt base v = SettingsMerge.putAt base w := by
  cases h with
  | refl => rfl
  | object h =>
    cases base with
    | object base =>
      refine congrArg Value.object ?_
      rw [put_eq, put_eq]
      exact mapValues_congr fun e _ => by rw [h]
    | _ => rfl

theorem Agree.typedAt {allowed : String → Bool} {v w : Option Value} (h : Agree v w) (base : Value)
    (default : Option Value) :
    SettingsMerge.typedAt allowed base v default =
      SettingsMerge.typedAt allowed base w default := by
  cases h with
  | refl => rfl
  | object h =>
    cases base with
    | object base =>
      show typed _ _ _ _ = typed _ _ _ _
      rw [Bool.eq_iff_iff, typed_iff, typed_iff]
      simp only [h]
    | _ => rfl

theorem Agree.isNone {v w : Option Value} (h : Agree v w) : v.isNone = w.isNone := by
  cases h <;> rfl

/-- Two patches that agree at every key do the same. -/
theorem put_congr {settings p q : Object} (h : ∀ key, Agree (get p key) (get q key)) :
    put settings p = put settings q := by
  rw [put_eq, put_eq]
  exact mapValues_congr fun e _ => (h e.1).putAt e.2

theorem typed_congr {allowed : String → Bool} {settings p q defaults : Object}
    (h : ∀ key, Agree (get p key) (get q key)) :
    typed allowed settings p defaults = typed allowed settings q defaults := by
  rw [Bool.eq_iff_iff, typed_iff, typed_iff]
  refine forall₂_congr fun e _ => ?_
  rw [(h e.1).isNone, (h e.1).typedAt]

/-- The settings' `runway`, if it is an object. -/
def runwayOf (settings : Object) : Option Object :=
  match get settings "runway" with
  | some (.object runway) => some runway
  | _ => none

theorem runwayOf_eq_some {settings runway : Object} :
    runwayOf settings = some runway ↔ get settings "runway" = some (.object runway) := by
  rw [runwayOf]
  split
  case h_1 r hr => rw [hr]; simp
  case h_2 hr =>
    constructor
    · exact fun h => by cases h
    · exact fun h => absurd h (hr runway)

theorem replaceMap_of_none {settings : Object} (h : runwayOf settings = none)
    (map : Option Object) : replaceMap settings map = settings := by
  cases map with
  | none => rfl
  | some map =>
    rw [replaceMap]
    split
    case h_1 runway hr => rw [runwayOf_eq_some.2 hr] at h; cases h
    case h_2 => rfl

theorem replaceMap_of_some {settings runway : Object} (h : runwayOf settings = some runway)
    (map : Object) : replaceMap settings (some map) =
      set settings "runway" (.object (set runway "providerMap" (.object map))) := by
  rw [replaceMap, runwayOf_eq_some.1 h]

/-- The map that is put last counts. -/
theorem replaceMap_replaceMap (settings : Object) (first second : Option Object) :
    replaceMap (replaceMap settings first) second = replaceMap settings (second.or first) := by
  cases hr : runwayOf settings with
  | none => rw [replaceMap_of_none hr, replaceMap_of_none hr, replaceMap_of_none hr]
  | some runway =>
    cases second with
    | none => rfl
    | some second =>
      cases first with
      | none => rfl
      | some first =>
        have hr' : runwayOf (replaceMap settings (some first)) =
            some (set runway "providerMap" (.object first)) := by
          rw [runwayOf_eq_some, replaceMap_of_some hr, get_set_self]
        rw [replaceMap_of_some hr', replaceMap_of_some hr, set_set, set_set, Option.some_or,
          replaceMap_of_some hr]

/-- What a patch leaves of `runway`. -/
theorem runwayOf_put (settings patch : Object) :
    runwayOf (put settings patch) = (runwayOf settings).map fun runway =>
      match get patch "runway" with
      | some (.object p) => put runway p
      | _ => runway := by
  cases hr : runwayOf settings with
  | some runway =>
    rw [Option.map_some, runwayOf_eq_some, put_eq, get_mapValues, runwayOf_eq_some.1 hr,
      Option.map_some]
    cases get patch "runway" with
    | none => rfl
    | some value => cases value <;> rfl
  | none =>
    rw [Option.map_none]
    by_contra hne
    obtain ⟨runway, hrunway⟩ := Option.ne_none_iff_exists'.1 hne
    rw [runwayOf_eq_some, put_eq, get_mapValues, Option.map_eq_some_iff] at hrunway
    obtain ⟨base, hbase, hput⟩ := hrunway
    cases base with
    | object b => rw [runwayOf_eq_some.2 hbase] at hr; cases hr
    | _ =>
      cases hvalue : get patch "runway" with
      | none => rw [hvalue, putAt_none] at hput; cases hput
      | some value =>
        rw [hvalue] at hput
        have hleaf := congrArg Value.isPlainObject hput
        rw [putAt_leaf_leaf rfl] at hleaf
        cases hleaf

/-- A patch without a provider map, before or after the map is replaced. -/
theorem put_replaceMap {patch : Object}
    (h : ∀ p, get patch "runway" = some (.object p) → get p "providerMap" = none)
    (settings : Object) (map : Option Object) :
    put (replaceMap settings map) patch = replaceMap (put settings patch) map := by
  cases map with
  | none => rfl
  | some map =>
    have hput := runwayOf_put settings patch
    cases hr : runwayOf settings with
    | none =>
      rw [hr, Option.map_none] at hput
      rw [replaceMap_of_none hr, replaceMap_of_none hput]
    | some runway =>
      rw [hr, Option.map_some] at hput
      rw [replaceMap_of_some hr, replaceMap_of_some hput, put_eq, mapValues_set, ← put_eq]
      congr 1
      cases hvalue : get patch "runway" with
      | none => rfl
      | some value =>
        cases value with
        | object p =>
          show Value.object (put _ p) = _
          rw [put_eq, mapValues_set, ← put_eq, h p hvalue]
          rfl
        | _ => rfl

theorem strip_runway {patch p : Object} (h : get (strip patch) "runway" = some (.object p)) :
    get p "providerMap" = none := by
  rw [get_strip, if_pos rfl, Option.map_eq_some_iff] at h
  obtain ⟨value, -, hvalue⟩ := h
  cases value with
  | object runway =>
    cases hvalue
    rw [get_erase, if_pos rfl]
  | _ => cases hvalue

/-! ## One patch -/

/-- Without a map there is nothing to strip. -/
theorem agree_strip {patch : Object}
    (h : ∀ p, get patch "runway" = some (.object p) → get p "providerMap" = none) (key : String) :
    Agree (get (strip patch) key) (get patch key) := by
  rw [get_strip]
  split
  case isFalse => exact Agree.refl _
  case isTrue hkey =>
    subst hkey
    cases hvalue : get patch "runway" with
    | none => exact Agree.refl none
    | some value =>
      cases value with
      | object p =>
        refine Agree.object fun k => ?_
        rw [get_erase]
        split
        case isTrue hk => rw [hk, h p hvalue]
        case isFalse => rfl
      | _ => exact Agree.refl _

theorem providerMapOf_eq_some {patch map : Object} : providerMapOf patch = some map ↔
    ∃ p, get patch "runway" = some (.object p) ∧ get p "providerMap" = some (.object map) := by
  rw [providerMapOf]
  split
  case h_1 p hp =>
    rw [hp]
    split
    case h_1 m hm => simp [hm]
    case h_2 hm =>
      constructor
      · exact fun h => by cases h
      · rintro ⟨p', hp', hmap⟩
        cases hp'
        exact absurd hmap (hm map)
  case h_2 hp =>
    constructor
    · exact fun h => by cases h
    · rintro ⟨p, hp', -⟩
      exact absurd hp' (hp p)

/-- Patches that differ at one key, which is then written. -/
theorem set_deepMerge_congr {p q : Object} (key : String)
    (h : ∀ key', key' ≠ key → get p key' = get q key') (settings defaults : Object)
    (value : Value) :
    set (deepMerge settings p defaults) key value =
      set (deepMerge settings q defaults) key value := by
  rw [deepMerge_eq, deepMerge_eq]
  exact set_mapValues_congr key (fun key' v hne => by rw [h key' hne]) settings value

/-- What the settings keep of a patch's map does not count once the map is replaced. -/
theorem replaceMap_deepMerge {settings runway patch p map : Object} (defaults : Object)
    (hr : runwayOf settings = some runway) (hp : get patch "runway" = some (.object p)) :
    replaceMap (deepMerge settings patch defaults) (some map) =
      replaceMap (deepMerge settings (strip patch) defaults) (some map) := by
  have hmerge : ∀ q : Object, mergeValue (.object runway) (some (.object q))
      (get defaults "runway") = .object (deepMerge runway q
        (match get defaults "runway" with
        | some (.object defaults) => defaults
        | _ => runway)) := fun q => rfl
  have hstrip : get (strip patch) "runway" = some (.object (erase p "providerMap")) := by
    rw [get_strip, if_pos rfl, hp]
    rfl
  have hleft : runwayOf (deepMerge settings patch defaults) = some (deepMerge runway p
      (match get defaults "runway" with
      | some (.object defaults) => defaults
      | _ => runway)) := by
    rw [runwayOf_eq_some, deepMerge_eq, get_mapValues, runwayOf_eq_some.1 hr, hp, Option.map_some,
      hmerge]
  have hright : runwayOf (deepMerge settings (strip patch) defaults) =
      some (deepMerge runway (erase p "providerMap")
        (match get defaults "runway" with
        | some (.object defaults) => defaults
        | _ => runway)) := by
    rw [runwayOf_eq_some, deepMerge_eq, get_mapValues, runwayOf_eq_some.1 hr, hstrip,
      Option.map_some, hmerge]
  have herase : ∀ key, key ≠ "providerMap" → get p key = get (erase p "providerMap") key :=
    fun key hkey => by rw [get_erase, if_neg hkey]
  rw [replaceMap_of_some hleft, replaceMap_of_some hright,
    set_deepMerge_congr "providerMap" herase]
  exact set_deepMerge_congr "runway" (fun key hkey => by rw [get_strip, if_neg hkey]) _ _ _

/-- **One patch**: it is put without its map, and then the map is replaced. -/
theorem applyPatch_eq {allowed : String → Bool} {defaults settings patch : Object}
    (h : WellTyped allowed defaults settings patch) :
    applyPatch defaults settings patch =
      replaceMap (put settings (strip patch)) (providerMapOf patch) := by
  obtain ⟨htyped, hmap⟩ := h
  rw [applyPatch, withWholeProviderMap, ← deepMerge_eq_put allowed _ _ defaults htyped]
  by_cases hp : ∀ p, get patch "runway" = some (.object p) → get p "providerMap" = none
  · -- there is no map, and stripping changes nothing
    have hsame : deepMerge settings patch defaults = deepMerge settings (strip patch) defaults := by
      have htyped' : typed allowed settings patch defaults = true := by
        rw [← typed_congr (agree_strip hp)]
        exact htyped
      rw [deepMerge_eq_put allowed _ _ _ htyped', deepMerge_eq_put allowed _ _ _ htyped,
        put_congr (agree_strip hp)]
    rw [hsame]
  · push Not at hp
    obtain ⟨p, hp, hvalue⟩ := hp
    obtain ⟨value, hvalue⟩ := Option.ne_none_iff_exists'.1 hvalue
    cases hr : runwayOf settings with
    | some runway =>
      have hobject := hmap runway p value (runwayOf_eq_some.1 hr) hp hvalue
      cases value with
      | object map =>
        rw [providerMapOf_eq_some.2 ⟨p, hp, hvalue⟩]
        exact replaceMap_deepMerge defaults hr hp
      | _ => cases hobject
    | none =>
      -- the settings have no such object, so they have no such key at all
      have hkey : ∀ e ∈ settings, e.1 ≠ "runway" := by
        rintro ⟨key, base⟩ he rfl
        have hbase := (typed_iff.1 htyped ("runway", base) he).2
        rw [get_strip, if_pos rfl, hp] at hbase
        cases hlast : get settings "runway" with
        | none => exact get_eq_none_iff.1 hlast (List.mem_map_of_mem he)
        | some last =>
          have hlastTyped := (typed_iff.1 htyped ("runway", last) (get_mem hlast)).2
          rw [get_strip, if_pos rfl, hp] at hlastTyped
          cases last with
          | object fields => rw [runwayOf_eq_some.2 hlast] at hr; cases hr
          | _ =>
            have hleaf := leaf_of_leafTyped rfl hlastTyped
            cases hleaf
      have hsame : deepMerge settings patch defaults =
          deepMerge settings (strip patch) defaults := by
        rw [deepMerge_eq, deepMerge_eq]
        exact mapValues_congr fun e he => by rw [get_strip, if_neg (hkey e he)]
      rw [hsame]

/-! ## A pending patch -/

/-- An object over what a pending patch has. -/
def under (first : Option Value) (patch : Object) : Object :=
  match first with
  | some (.object base) => mergePartialPatch base patch
  | _ => patch

theorem onto_under (first : Option Value) (patch : Object) :
    onto first (some (.object patch)) = some (.object (under first patch)) := by
  cases first with
  | none => rfl
  | some value => cases value <;> rfl

theorem runway_mergeable : "runway" ∉ FORBIDDEN_PATCH_KEYS := by decide

theorem providerMap_mergeable : "providerMap" ∉ FORBIDDEN_PATCH_KEYS := by decide

/-- The pending patch after one more, at all keys but one. -/
theorem get_batch_of_ne (p q : Object) {key : String} (h : key ≠ "runway") :
    get (withWholeProviderMap (mergePartialPatch p q) q) key =
      get (mergePartialPatch p q) key := by
  rw [withWholeProviderMap]
  cases hr : runwayOf (mergePartialPatch p q) with
  | none => rw [replaceMap_of_none hr]
  | some runway =>
    cases providerMapOf q with
    | none => rfl
    | some map => rw [replaceMap_of_some hr, get_set_of_ne _ _ h]

/-- A patch whose `runway` is no object carries no map. -/
theorem batch_of_leaf {q : Object} (h : ∀ fields, get q "runway" ≠ some (.object fields))
    (p : Object) : withWholeProviderMap (mergePartialPatch p q) q = mergePartialPatch p q := by
  have hnone : providerMapOf q = none := by
    by_contra hne
    obtain ⟨map, hmap⟩ := Option.ne_none_iff_exists'.1 hne
    obtain ⟨fields, hfields, -⟩ := providerMapOf_eq_some.1 hmap
    exact h fields hfields
  rw [withWholeProviderMap, hnone, replaceMap]

/-- The `runway` of the pending patch after one more. -/
theorem runway_batch {q fields : Object} (h : get q "runway" = some (.object fields)) (p : Object) :
    get (withWholeProviderMap (mergePartialPatch p q) q) "runway" =
      some (.object (match providerMapOf q with
        | some map => set (under (get p "runway") fields) "providerMap" (.object map)
        | none => under (get p "runway") fields)) := by
  have hmerged : get (mergePartialPatch p q) "runway" =
      some (.object (under (get p "runway") fields)) := by
    rw [get_mergePartialPatch, if_neg runway_mergeable, h, onto_under]
  rw [withWholeProviderMap]
  cases providerMapOf q with
  | none => exact hmerged
  | some map => rw [replaceMap_of_some (runwayOf_eq_some.2 hmerged), get_set_self]

/-- **The pending patch without its map** is made of the patches without theirs. -/
theorem agree_batch (p q : Object) (key : String) :
    Agree (get (strip (withWholeProviderMap (mergePartialPatch p q) q)) key)
      (get (mergePartialPatch (strip p) (strip q)) key) := by
  by_cases hkey : key = "runway"
  case neg =>
    rw [get_strip, if_neg hkey, get_batch_of_ne p q hkey, get_mergePartialPatch,
      get_mergePartialPatch, get_strip, if_neg hkey, get_strip, if_neg hkey]
    exact Agree.refl _
  subst hkey
  rw [get_strip, if_pos rfl, get_mergePartialPatch, if_neg runway_mergeable, get_strip,
    if_pos rfl, get_strip, if_pos rfl]
  by_cases hq : ∃ fields, get q "runway" = some (.object fields)
  case neg =>
    push Not at hq
    rw [batch_of_leaf hq, get_mergePartialPatch, if_neg runway_mergeable]
    cases hvalue : get q "runway" with
    | none => exact Agree.refl _
    | some value =>
      have hleaf : value.isPlainObject = false := by
        cases value with
        | object fields => exact absurd hvalue (hq fields)
        | _ => rfl
      have hstrip : stripMap value = value := by
        cases value with
        | object fields => cases hleaf
        | _ => rfl
      rw [onto_leaf _ hleaf, Option.map_some, hstrip, onto_leaf _ hleaf]
      exact Agree.refl _
  obtain ⟨fields, hq⟩ := hq
  rw [runway_batch hq, hq, Option.map_some, Option.map_some, stripMap, stripMap, onto_under]
  refine Agree.object fun k => ?_
  have hleft : get (erase (match providerMapOf q with
      | some map => set (under (get p "runway") fields) "providerMap" (.object map)
      | none => under (get p "runway") fields) "providerMap") k =
      if k = "providerMap" then none else get (under (get p "runway") fields) k := by
    rw [get_erase]
    by_cases hk : k = "providerMap"
    · rw [if_pos hk, if_pos hk]
    · rw [if_neg hk, if_neg hk]
      cases providerMapOf q with
      | none => rfl
      | some map => exact get_set_of_ne _ _ hk
  rw [hleft]
  have hpatch : ∀ first : Option Value, (∀ base, first ≠ some (.object base)) →
      ∀ patch, under (first.map stripMap) patch = patch ∧ under first patch = patch := by
    intro first hfirst patch
    cases first with
    | none => exact ⟨rfl, rfl⟩
    | some value =>
      cases value with
      | object base => exact absurd rfl (hfirst base)
      | _ => exact ⟨rfl, rfl⟩
  by_cases hp : ∃ base, get p "runway" = some (.object base)
  · obtain ⟨base, hp⟩ := hp
    rw [hp, Option.map_some, stripMap, under, under, get_mergePartialPatch, get_mergePartialPatch,
      get_erase, get_erase]
    by_cases hk : k = "providerMap"
    · subst hk
      rw [if_pos rfl, if_pos rfl, if_pos rfl, if_neg providerMap_mergeable]
      rfl
    · rw [if_neg hk, if_neg hk, if_neg hk]
  · push Not at hp
    obtain ⟨hstripped, hplain⟩ := hpatch (get p "runway") hp (erase fields "providerMap")
    rw [hstripped, (hpatch (get p "runway") hp fields).2, get_erase]

/-- `patch.runway.providerMap`, whatever it is. -/
def mapValue (patch : Object) : Option Value :=
  match get patch "runway" with
  | some (.object fields) => get fields "providerMap"
  | _ => none

theorem mapValue_of_runway {patch fields : Object}
    (h : get patch "runway" = some (.object fields)) :
    mapValue patch = get fields "providerMap" := by
  rw [mapValue, h]

/-- The patch names the `runway` of the settings with an object. -/
theorem runway_of_typed {allowed : String → Bool} {defaults settings runway patch : Object}
    (hr : runwayOf settings = some runway)
    (h : typed allowed settings (strip patch) defaults = true) {value : Value}
    (hvalue : get patch "runway" = some value) : ∃ fields, value = .object fields := by
  have hat := (typed_iff.1 h ("runway", .object runway) (get_mem (runwayOf_eq_some.1 hr))).2
  rw [get_strip, if_pos rfl, hvalue] at hat
  obtain ⟨fields, hfields, -⟩ := object_of_typedAt hat
  cases value with
  | object fields => exact ⟨fields, rfl⟩
  | _ => cases hfields

/-- The map of a well typed patch is an object. -/
theorem providerMapOf_of_wellTyped {allowed : String → Bool}
    {defaults settings runway patch : Object} (hr : runwayOf settings = some runway)
    (h : WellTyped allowed defaults settings patch) :
    mapValue patch = (providerMapOf patch).map Value.object := by
  cases hvalue : mapValue patch with
  | none =>
    rw [eq_comm, Option.map_eq_none_iff]
    by_contra hne
    obtain ⟨map, hmap⟩ := Option.ne_none_iff_exists'.1 hne
    obtain ⟨fields, hfields, hget⟩ := providerMapOf_eq_some.1 hmap
    rw [mapValue_of_runway hfields, hget] at hvalue
    cases hvalue
  | some value =>
    cases hpatch : get patch "runway" with
    | none => rw [mapValue, hpatch] at hvalue; cases hvalue
    | some runwayValue =>
      obtain ⟨fields, rfl⟩ := runway_of_typed hr h.1 hpatch
      rw [mapValue_of_runway hpatch] at hvalue
      have hobject := h.2 runway fields value (runwayOf_eq_some.1 hr) hpatch hvalue
      cases value with
      | object map => rw [providerMapOf_eq_some.2 ⟨fields, hpatch, hvalue⟩]; rfl
      | _ => cases hobject

/-- The map of the pending patch after one more is the last one. -/
theorem mapValue_batch {allowed : String → Bool} {defaults settings p q runway : Object}
    (hr : runwayOf settings = some runway) (hp : WellTyped allowed defaults settings p)
    (hq : WellTyped allowed defaults settings q) :
    mapValue (withWholeProviderMap (mergePartialPatch p q) q) =
      ((providerMapOf q).or (providerMapOf p)).map Value.object := by
  have hpMap := providerMapOf_of_wellTyped hr hp
  have hqMap := providerMapOf_of_wellTyped hr hq
  cases hvalue : get q "runway" with
  | none =>
    have hnone : providerMapOf q = none := by rw [providerMapOf, hvalue]
    rw [batch_of_leaf (fun fields h => by rw [hvalue] at h; cases h), hnone,
      Option.none_or, ← hpMap, mapValue, get_mergePartialPatch, if_neg runway_mergeable, hvalue]
    rfl
  | some value =>
    obtain ⟨fields, rfl⟩ := runway_of_typed hr hq.1 hvalue
    rw [mapValue_of_runway (runway_batch hvalue p)]
    cases hmap : providerMapOf q with
    | some map => rw [get_set_self]; rfl
    | none =>
      rw [hmap, mapValue_of_runway hvalue, Option.map_none] at hqMap
      rw [Option.none_or, ← hpMap, mapValue]
      show get (under (get p "runway") fields) "providerMap" = _
      cases get p "runway" with
      | none => exact hqMap
      | some first =>
        cases first with
        | object base =>
          rw [under, get_mergePartialPatch, if_neg providerMap_mergeable, hqMap]
          rfl
        | _ => exact hqMap

theorem providerMapOf_eq (patch : Object) : providerMapOf patch =
    match mapValue patch with
    | some (.object map) => some map
    | _ => none := by
  rw [providerMapOf, mapValue]
  split <;> rfl

/-- **The pending patch stays well typed**, and its map is the last one. -/
theorem wellTyped_batch {defaults settings p q : Object}
    (hp : WellTyped mergeable defaults settings p) (hq : WellTyped mergeable defaults settings q) :
    WellTyped mergeable defaults settings (withWholeProviderMap (mergePartialPatch p q) q) := by
  refine ⟨?_, ?_⟩
  · rw [typed_congr (agree_batch p q)]
    exact (put_put settings (strip p) (strip q) defaults hp.1 hq.1).2.2
  · intro runway fields value hr hfields hvalue
    have hmap := mapValue_batch (runwayOf_eq_some.2 hr) hp hq
    rw [mapValue_of_runway hfields, hvalue] at hmap
    obtain ⟨map, -, rfl⟩ := Option.map_eq_some_iff.1 hmap.symm
    rfl

/-- A value that is written is well typed. -/
theorem typed_set {allowed : String → Bool} {settings patch defaults : Object} {key : String}
    {value : Value} (h : typed allowed settings patch defaults = true)
    (hkey : ((get patch key).isNone || allowed key) = true)
    (hvalue : typedAt allowed value (get patch key) (get defaults key) = true) :
    typed allowed (set settings key value) patch defaults = true := by
  rw [typed_iff] at h ⊢
  intro e he
  rw [Fields.set] at he
  split at he
  · obtain ⟨e', he', rfl⟩ := List.mem_map.1 he
    split
    case isTrue => exact ⟨hkey, hvalue⟩
    case isFalse => exact h e' he'
  · rcases List.mem_append.1 he with he | he
    · exact h e he
    · cases List.mem_singleton.1 he
      exact ⟨hkey, hvalue⟩

/-- **A patch stays well typed** when another one was applied. -/
theorem wellTyped_applyPatch {defaults settings p q : Object}
    (hp : WellTyped mergeable defaults settings p) (hq : WellTyped mergeable defaults settings q) :
    WellTyped mergeable defaults (applyPatch defaults settings p) q := by
  have htyped := (put_put settings (strip p) (strip q) defaults hp.1 hq.1).2.1
  rw [applyPatch_eq hp]
  have hput := runwayOf_put settings (strip p)
  cases hr : runwayOf settings with
  | none =>
    rw [hr, Option.map_none] at hput
    rw [replaceMap_of_none hput]
    exact ⟨htyped, fun runway _ _ hrunway => by rw [runwayOf_eq_some.2 hrunway] at hput; cases hput⟩
  | some runway =>
    rw [hr, Option.map_some] at hput
    refine ⟨?_, fun _ fields value _ => hq.2 runway fields value (runwayOf_eq_some.1 hr)⟩
    cases hmap : providerMapOf p with
    | none => exact htyped
    | some map =>
      rw [replaceMap_of_some hput]
      have hentry := typed_iff.1 htyped ("runway", _) (get_mem (runwayOf_eq_some.1 hput))
      refine typed_set htyped hentry.1 ?_
      have hat := hentry.2
      cases hvalue : get (strip q) "runway" with
      | none => exact typedAt_none _ _ _
      | some value =>
        rw [hvalue] at hat
        obtain ⟨fields, rfl, hfields⟩ := object_of_typedAt hat
        have hnone := strip_runway hvalue
        exact typed_set hfields (by rw [hnone]; rfl) (by rw [hnone]; exact typedAt_none _ _ _)

/-- **Two patches**: one after the other, or both as one. -/
theorem applyPatch_batch {defaults settings p q : Object}
    (hp : WellTyped mergeable defaults settings p) (hq : WellTyped mergeable defaults settings q) :
    applyPatch defaults settings (withWholeProviderMap (mergePartialPatch p q) q) =
      applyPatch defaults (applyPatch defaults settings p) q := by
  rw [applyPatch_eq (wellTyped_batch hp hq), applyPatch_eq (wellTyped_applyPatch hp hq),
    applyPatch_eq hp, put_replaceMap (fun _ => strip_runway), replaceMap_replaceMap,
    put_congr (agree_batch p q), (put_put settings (strip p) (strip q) defaults hp.1 hq.1).1]
  have hput := runwayOf_put settings (mergePartialPatch (strip p) (strip q))
  cases hr : runwayOf settings with
  | none =>
    rw [hr, Option.map_none] at hput
    rw [replaceMap_of_none hput, replaceMap_of_none hput]
  | some runway =>
    congr 1
    rw [providerMapOf_eq, mapValue_batch hr hp hq]
    cases (providerMapOf q).or (providerMapOf p) <;> rfl

/-! ## What no patch names -/

theorem at?_leaf {value : Value} (h : value.isPlainObject = false) (key : String)
    (path : List String) : at? value (key :: path) = none := by
  cases value with
  | object fields => cases h
  | _ => rfl

/-- A leaf stays one. -/
theorem mergeValue_leaf_leaf {base : Value} (hbase : base.isPlainObject = false) (value : Value)
    (defaultValue : Option Value) :
    (mergeValue base (some value) defaultValue).isPlainObject = false := by
  rw [mergeValue_of_leaf hbase]
  split
  case isTrue hsame =>
    cases hvalue : value.isPlainObject with
    | true =>
      rw [sameType, hvalue, Bool.or_true, if_pos rfl] at hsame
      cases hsame
    | false => rfl
  case isFalse => exact hbase

/-- A merged value at a path below one that the patch does not have. -/
theorem at?_mergeValue : ∀ (path : List String) (base : Value) (value default : Option Value),
    (value.bind fun v => at? v path) = none →
      at? (mergeValue base value default) path = at? base path
  | _, base, none, _, _ => by cases base <;> rfl
  | [], base, some value, _, h => by cases h
  | key :: path, .object base, some (.object patch), default, h => by
    show (get (deepMerge base patch _) key).bind _ = (get base key).bind _
    rw [deepMerge_eq, get_mapValues]
    cases get base key with
    | none => rfl
    | some v => exact at?_mergeValue path v (get patch key) _ h
  | key :: path, .object base, some .null, _, _ | key :: path, .object base, some (.bool _), _, _
  | key :: path, .object base, some (.number _), _, _
  | key :: path, .object base, some (.string _), _, _
  | key :: path, .object base, some (.array _), _, _ => rfl
  | key :: path, .null, some value, default, _ | key :: path, .bool _, some value, default, _
  | key :: path, .number _, some value, default, _
  | key :: path, .string _, some value, default, _
  | key :: path, .array _, some value, default, _ => by
    rw [at?_leaf (mergeValue_leaf_leaf rfl value default), at?_leaf rfl]

/-- A path that the map is not at. -/
theorem at?_replaceMap (settings : Object) (map : Option Object) {path : List String}
    (hne : path ≠ []) (hrunway : path = ["runway"] → map = none)
    (h : map.isSome → ¬ ["runway", "providerMap"] <+: path) :
    at? (.object (replaceMap settings map)) path = at? (.object settings) path := by
  cases map with
  | none => rfl
  | some map =>
    cases hr : runwayOf settings with
    | none => rw [replaceMap_of_none hr]
    | some runway =>
      rw [replaceMap_of_some hr]
      cases path with
      | nil => exact absurd rfl hne
      | cons key path =>
        show (get (set settings "runway" _) key).bind _ = (get settings key).bind _
        rw [get_set]
        split
        case isFalse => rfl
        case isTrue hkey =>
          subst hkey
          rw [runwayOf_eq_some.1 hr]
          cases path with
          | nil => cases hrunway rfl
          | cons key path =>
            show (get (set runway "providerMap" _) key).bind _ = (get runway key).bind _
            rw [get_set_of_ne]
            rintro rfl
            exact h rfl ⟨path, rfl⟩

/-- **What a patch does not name** keeps its value. -/
theorem at?_applyPatch (defaults settings : Object) {patch : Object} {path : List String}
    (h : ¬ Names patch path) :
    at? (.object (applyPatch defaults settings patch)) path = at? (.object settings) path := by
  rw [Names, not_or, not_and, Option.not_isSome_iff_eq_none] at h
  obtain ⟨hpatch, hmap⟩ := h
  rw [applyPatch, withWholeProviderMap, at?_replaceMap]
  · exact at?_mergeValue path (.object settings) (some (.object patch)) (some (.object defaults))
      hpatch
  · rintro rfl
    cases hpatch
  · rintro rfl
    rw [Option.eq_none_iff_forall_ne_some]
    intro map hmap
    obtain ⟨fields, hfields, -⟩ := providerMapOf_eq_some.1 hmap
    rw [at?, hfields] at hpatch
    cases hpatch
  · exact hmap

/-! ## Groups of patches -/

theorem foldl_wellTyped {defaults : Object} {patches rest : List Object} {settings : Object}
    (hpatches : ∀ patch ∈ patches, WellTyped mergeable defaults settings patch)
    (hrest : ∀ patch ∈ rest, WellTyped mergeable defaults settings patch) :
    ∀ patch ∈ rest,
      WellTyped mergeable defaults (patches.foldl (applyPatch defaults) settings) patch := by
  induction patches generalizing settings with
  | nil => exact hrest
  | cons p patches ih =>
    rw [List.forall_mem_cons] at hpatches
    exact ih (fun patch hmem => wellTyped_applyPatch hpatches.1 (hpatches.2 patch hmem))
      fun patch hmem => wellTyped_applyPatch hpatches.1 (hrest patch hmem)

/-- The page has the settings of all edits; what it holds back comes to the same as what it
already applied. -/
theorem foldl_updateSettings {defaults base : Object} {group : List Object} {s : Store}
    {pending : Object} (hpending : s.pendingPatch = some pending)
    (hsettings : s.settings = applyPatch defaults base pending)
    (htyped : WellTyped mergeable defaults base pending)
    (hgroup : ∀ patch ∈ group, WellTyped mergeable defaults base patch) :
    ∃ pending', (group.foldl (Store.updateSettings defaults) s).pendingPatch = some pending' ∧
      (group.foldl (Store.updateSettings defaults) s).settings =
        applyPatch defaults base pending' ∧
      (group.foldl (Store.updateSettings defaults) s).sent = s.sent ∧
      (group.foldl (Store.updateSettings defaults) s).settings =
        group.foldl (applyPatch defaults) s.settings := by
  induction group generalizing s pending with
  | nil => exact ⟨pending, hpending, hsettings, rfl, rfl⟩
  | cons patch group ih =>
    rw [List.forall_mem_cons] at hgroup
    have hnext : (s.updateSettings defaults patch).pendingPatch =
        some (withWholeProviderMap (mergePartialPatch pending patch) patch) := by
      rw [Store.updateSettings, hpending]
      rfl
    have happlied : (s.updateSettings defaults patch).settings = applyPatch defaults base
        (withWholeProviderMap (mergePartialPatch pending patch) patch) := by
      rw [applyPatch_batch htyped hgroup.1, ← hsettings]
      rfl
    exact ih hnext happlied (wellTyped_batch htyped hgroup.1) hgroup.2

/-- **One group**: the page has the settings of its edits, and what it sent comes to the same. -/
theorem editGroup_spec {defaults start : Object} {s : Store} (hpending : s.pendingPatch = none)
    (hsent : s.sent.foldl (applyPatch defaults) start = s.settings) {group : List Object}
    (hgroup : ∀ patch ∈ group, WellTyped mergeable defaults s.settings patch) :
    (s.editGroup defaults group).pendingPatch = none ∧
      (s.editGroup defaults group).settings = group.foldl (applyPatch defaults) s.settings ∧
      (s.editGroup defaults group).sent.foldl (applyPatch defaults) start =
        (s.editGroup defaults group).settings := by
  cases group with
  | nil =>
    have heq : s.editGroup defaults [] = s := by
      rw [Store.editGroup, List.foldl_nil, Store.flushPendingPatch, hpending]
    rw [heq]
    exact ⟨hpending, rfl, hsent⟩
  | cons patch group =>
    rw [List.forall_mem_cons] at hgroup
    have hfirst : (s.updateSettings defaults patch).pendingPatch = some patch := by
      rw [Store.updateSettings, hpending]
      rfl
    obtain ⟨pending, hpend, happlied, hsame, hall⟩ := foldl_updateSettings hfirst
      (show (s.updateSettings defaults patch).settings = applyPatch defaults s.settings patch
        from rfl) hgroup.1 hgroup.2
    rw [Store.editGroup, List.foldl_cons, Store.flushPendingPatch, hpend]
    refine ⟨rfl, hall, ?_⟩
    show List.foldl _ _ (_ ++ [pending]) = _
    rw [List.foldl_append, hsame]
    show applyPatch defaults (s.sent.foldl (applyPatch defaults) start) pending = _
    rw [hsent, ← happlied]

/-- The page after some groups of edits. -/
def page (defaults settings : Object) (groups : List (List Object)) : Store :=
  groups.foldl (Store.editGroup defaults) { settings := settings }

/-- **Batched edits equal single ones**: the settings of the page are those of its edits one by
one, what it sent comes to the same settings, and what no edit names keeps its value. -/
theorem batched_settings (defaults settings : Object) (groups : List (List Object))
    (h : ∀ group ∈ groups, ∀ patch ∈ group, WellTyped mergeable defaults settings patch) :
    (page defaults settings groups).settings =
        groups.flatten.foldl (applyPatch defaults) settings ∧
      (page defaults settings groups).sent.foldl (applyPatch defaults) settings =
        groups.flatten.foldl (applyPatch defaults) settings ∧
      ∀ path, (∀ patch ∈ groups.flatten, ¬ Names patch path) →
        at? (.object (groups.flatten.foldl (applyPatch defaults) settings)) path =
          at? (.object settings) path := by
  have hrun : ∀ (groups : List (List Object)) (s : Store), s.pendingPatch = none →
      s.sent.foldl (applyPatch defaults) settings = s.settings →
      (∀ group ∈ groups, ∀ patch ∈ group, WellTyped mergeable defaults s.settings patch) →
      (groups.foldl (Store.editGroup defaults) s).settings =
          groups.flatten.foldl (applyPatch defaults) s.settings ∧
        (groups.foldl (Store.editGroup defaults) s).sent.foldl (applyPatch defaults) settings =
          (groups.foldl (Store.editGroup defaults) s).settings := by
    intro groups
    induction groups with
    | nil => exact fun s _ hsent _ => ⟨rfl, hsent⟩
    | cons group groups ih =>
      intro s hpending hsent htyped
      rw [List.forall_mem_cons] at htyped
      obtain ⟨hpending', hsettings, hsent'⟩ := editGroup_spec hpending hsent htyped.1
      rw [List.foldl_cons, List.flatten_cons, List.foldl_append, ← hsettings]
      refine ih (s.editGroup defaults group) hpending' hsent' fun g hg => ?_
      rw [hsettings]
      exact foldl_wellTyped htyped.1 (htyped.2 g hg)
  obtain ⟨hsettings, hsent⟩ := hrun groups { settings := settings } rfl rfl h
  refine ⟨hsettings, hsent.trans hsettings, fun path hpath => ?_⟩
  generalize groups.flatten = patches at hpath
  clear h hsettings hsent hrun
  induction patches generalizing settings with
  | nil => rfl
  | cons patch patches ih =>
    rw [List.forall_mem_cons] at hpath
    rw [List.foldl_cons, ih (applyPatch defaults settings patch) hpath.2,
      at?_applyPatch defaults settings hpath.1]

/-- Two providers, and a font. -/
def someSettings : Object :=
  [("runway", .object [("providerMap", .object [("anthropic", .string "claude")])]),
    ("terminal", .object [("fontSize", .number 12), ("padding", .number 4)])]

/-- Another provider, and another font. -/
def larger : Object :=
  [("runway", .object [("providerMap", .object [("xai", .string "opencode/xai")])]),
    ("terminal", .object [("fontSize", .number 14), ("padding", .number 6)])]

/-- The first provider again, and the font a second time. -/
def smaller : Object :=
  [("terminal", .object [("fontSize", .number 11)]),
    ("runway", .object [("providerMap", .object [("anthropic", .string "opencode/claude")])])]

theorem larger_wellTyped : WellTyped mergeable someSettings someSettings larger := by
  refine ⟨by decide, fun _ _ _ _ hpatch hvalue => ?_⟩
  cases hpatch
  cases hvalue
  rfl

theorem smaller_wellTyped : WellTyped mergeable someSettings someSettings smaller := by
  refine ⟨by decide, fun _ _ _ _ hpatch hvalue => ?_⟩
  cases hpatch
  cases hvalue
  rfl

/-- Two edits of the same keys in one group, and the first of them again. -/
def edits : List (List Object) := [[larger, smaller], [larger]]

theorem batched_settings_of_two :
    (page someSettings someSettings edits).settings =
        edits.flatten.foldl (applyPatch someSettings) someSettings ∧
      (page someSettings someSettings edits).sent.foldl (applyPatch someSettings) someSettings =
        edits.flatten.foldl (applyPatch someSettings) someSettings ∧
      ∀ path, (∀ patch ∈ edits.flatten, ¬ Names patch path) →
        at? (.object (edits.flatten.foldl (applyPatch someSettings) someSettings)) path =
          at? (.object someSettings) path := by
  refine batched_settings someSettings someSettings edits fun group hgroup patch hpatch => ?_
  have heither : patch = larger ∨ patch = smaller := by
    rcases List.mem_cons.1 hgroup with rfl | hgroup
    · simpa using hpatch
    · cases List.mem_singleton.1 hgroup
      exact .inl (List.mem_singleton.1 hpatch)
  rcases heither with rfl | rfl
  · exact larger_wellTyped
  · exact smaller_wellTyped

/-- A key that no patch may carry to another one is lost when it comes second. -/
theorem forbidden_key_is_dropped :
    ¬ ∀ (defaults settings : Object) (groups : List (List Object)),
      (∀ group ∈ groups, ∀ patch ∈ group,
        WellTyped (fun _ => true) defaults settings patch) →
      (page defaults settings groups).sent.foldl (applyPatch defaults) settings =
        groups.flatten.foldl (applyPatch defaults) settings := by
  intro h
  have hlaw := h [("constructor", .bool false)] [("constructor", .bool false)]
    [[[], [("constructor", .bool true)]]] (fun group hgroup => by
      cases List.mem_singleton.1 hgroup
      intro patch hpatch
      rcases List.mem_cons.1 hpatch with rfl | hpatch
      · exact ⟨by decide, fun _ _ _ hrunway => by cases hrunway⟩
      · cases List.mem_singleton.1 hpatch
        exact ⟨by decide, fun _ _ _ hrunway => by cases hrunway⟩)
  cases hlaw

end SettingsMerge
end Mullion
