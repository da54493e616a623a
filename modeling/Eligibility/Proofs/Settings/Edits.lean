import Eligibility.Settings.Layers
import Mathlib.Data.List.Forall2
import Mathlib.Data.List.Induction
/-!
# What layers do to one key

What a layer does to one key of a section is a list of edits (`editsOf`), each of which lays a value
over what is at a path within the key; `given` is what they make of nothing. A reader of plain
values takes what the last edit lays over the key itself, whatever was there before, and so the last
layer that sets a key decides (`valueAt_eq_lastGiven`). A list is no plain value: a key of a layer
may address a single item of it and leave the others as they are.

The entries of a layer may come in any order. What the last layer that sets a key gives it depends
on this order only if two of its entries set the key (`lastGiven_eq_of_perm`).
-/

namespace Eligibility

namespace Setting

/-! ## Tables and paths -/

theorem lookup_cons (key : String) (member : String × Setting) (rest : List (String × Setting)) :
    lookup key (member :: rest) = if member.1 = key then some member.2 else lookup key rest := by
  by_cases h : member.1 = key <;> simp [lookup, h]

theorem lookup_insert (key key' : String) (value : Setting) (members : List (String × Setting)) :
    lookup key (insert key' value members) =
      if key' = key then some value else lookup key members := by
  induction members with
  | nil => rw [insert, lookup_cons]
  | cons member rest ih =>
    by_cases hmember : member.1 = key'
    · by_cases hkey : key' = key <;> simp [insert, lookup_cons, hmember, hkey]
    · rw [insert, if_neg hmember, lookup_cons, lookup_cons, ih]
      split_ifs with hfirst hkey
      · exact absurd (hfirst.trans hkey.symm) hmember
      all_goals rfl

/-- What is at a key of a table with members laid over it: they come one after the other. -/
theorem lookup_overlayMembers (key : String) (members base : List (String × Setting)) :
    lookup key (overlayMembers base members) =
      (members.filter (·.1 = key)).foldl (fun old member => some (overlay old member.2))
        (lookup key base) := by
  induction members generalizing base with
  | nil => rw [overlayMembers, List.filter_nil, List.foldl_nil]
  | cons member rest ih =>
    rw [overlayMembers, ih, lookup_insert]
    by_cases h : member.1 = key <;> simp [h]

/-- A path starts with a key. -/
theorem exists_pathOfKey_eq (key : String) : ∃ name path, pathOfKey key = .key name :: path := by
  unfold pathOfKey steps?
  simp only [if_true]
  split
  · exact ⟨key, [], rfl⟩
  · cases steps? (key.toList.dropWhile isNameChar) with
    | none => exact ⟨key, [], rfl⟩
    | some path => exact ⟨_, path, rfl⟩

end Setting

namespace Settings

open Setting

/-- Values by their keys, which are paths. -/
abbrev Layer := List (String × Setting)

/-! ## What a layer does to a key -/

/-- The value of a key of a section. -/
def valueAt (sectionName key : String) (base : Setting) : Option Setting :=
  (lookup sectionName base.members).bind fun fields => lookup key fields.members

/-- Whether a section is a table, or is not there. -/
def hasTable (sectionName : String) (base : Setting) : Bool :=
  match lookup sectionName base.members with
  | none | some (.table _) => true
  | some _ => false

/-- Whether an entry of a layer gives a section nothing but a table. -/
def givesTable (sectionName : String) (entry : String × Setting) : Bool :=
  hasTable sectionName (put entry.2 (pathOfKey entry.1) none)

/-- The edits of a key of a section by an entry of a layer: the values it lays over the key, with
the paths to them within the key. -/
def editsOfEntry (sectionName key : String) (entry : String × Setting) : List (Path × Setting) :=
  match pathOfKey entry.1 with
  | [.key name] =>
    if name = sectionName then (entry.2.members.filter (·.1 = key)).map fun member => ([], member.2)
    else []
  | .key name :: .key name' :: path =>
    if name = sectionName ∧ name' = key then [(path, entry.2)] else []
  | _ => []

/-- The edits of a key of a section by a layer. -/
def editsOf (sectionName key : String) (layer : Layer) : List (Path × Setting) :=
  layer.flatMap (editsOfEntry sectionName key)

/-- A value after some edits. -/
def edited (old : Option Setting) (edits : List (Path × Setting)) : Option Setting :=
  edits.foldl (fun old edit => some (put edit.2 edit.1 old)) old

section

variable {sectionName key : String} {entry : String × Setting} {layer : Layer} {base : Setting}

theorem put_key (value : Setting) (name : String) (path : Path) (base : Setting) :
    put value (.key name :: path) (some base) =
      .table (insert name (put value path (lookup name base.members)) base.members) := rfl

/-- **What an entry may do to a section**: set another key, lay a table over the section, or set
something at a key of the section. -/
theorem path_cases (h : givesTable sectionName entry = true) :
    (∃ name path, pathOfKey entry.1 = .key name :: path ∧ name ≠ sectionName) ∨
      (∃ members, pathOfKey entry.1 = [.key sectionName] ∧ entry.2 = .table members) ∨
      ∃ name path, pathOfKey entry.1 = .key sectionName :: .key name :: path := by
  obtain ⟨name, path, hpath⟩ := exists_pathOfKey_eq entry.1
  rcases eq_or_ne name sectionName with rfl | hname
  · refine .inr ?_
    have hvalue : hasTable name (.table [(name, put entry.2 path none)]) = true := by
      rw [givesTable, hpath] at h
      exact h
    rcases path with _ | ⟨_ | _, path⟩
    · refine .inl ?_
      cases hentry : entry.2 <;>
        simp [hasTable, Setting.members, lookup_cons, put, overlay, hentry] at hvalue
      exact ⟨_, hpath, rfl⟩
    · exact .inr ⟨_, _, hpath⟩
    · simp [hasTable, Setting.members, lookup_cons, put] at hvalue
  · exact .inl ⟨name, path, hpath, hname⟩

theorem valueAt_eq_lookup (sectionName key : String) (base : Setting) :
    valueAt sectionName key base =
      lookup key (((lookup sectionName base.members).map Setting.members).getD []) := by
  rw [valueAt]
  cases lookup sectionName base.members <;> rfl

theorem valueAt_insert (value : Setting) (members : List (String × Setting)) :
    valueAt sectionName key (.table (insert sectionName value members)) =
      lookup key value.members := by
  rw [valueAt, Setting.members, lookup_insert, if_pos rfl, Option.bind_some]

/-- **What an entry does to a key** is its edits. -/
theorem valueAt_put (h : givesTable sectionName entry = true) :
    valueAt sectionName key (put entry.2 (pathOfKey entry.1) (some base)) =
      edited (valueAt sectionName key base) (editsOfEntry sectionName key entry) := by
  rcases path_cases h with ⟨name, path, hpath, hname⟩ | ⟨members, hpath, hvalue⟩ |
    ⟨name, path, hpath⟩
  · have hedits : editsOfEntry sectionName key entry = [] := by
      rw [editsOfEntry, hpath]
      split <;> simp_all
    rw [hedits, hpath, put_key, valueAt, Setting.members, lookup_insert, if_neg hname]
    rfl
  · rw [hpath, put_key, valueAt_insert, hvalue, valueAt_eq_lookup, put, overlay, Setting.members,
      lookup_overlayMembers, editsOfEntry, hpath]
    simp only [if_true, hvalue, Setting.members, edited, List.foldl_map, put]
  · rw [hpath, put_key, valueAt_insert, valueAt_eq_lookup, put, Setting.members, lookup_insert,
      editsOfEntry, hpath]
    by_cases hname : name = key
    · simp [hname, edited]
    · simp [hname, edited]

/-- An entry that gives a section a table leaves it a table. -/
theorem hasTable_put (h : givesTable sectionName entry = true)
    (hbase : hasTable sectionName base = true) :
    hasTable sectionName (put entry.2 (pathOfKey entry.1) (some base)) = true := by
  rcases path_cases h with ⟨name, path, hpath, hname⟩ | ⟨members, hpath, hvalue⟩ |
    ⟨name, path, hpath⟩
  · rwa [hpath, put_key, hasTable, Setting.members, lookup_insert, if_neg hname]
  · rw [hpath, put_key, hasTable, Setting.members, lookup_insert, if_pos rfl, hvalue]
    rfl
  · rw [hpath, put_key, hasTable, Setting.members, lookup_insert, if_pos rfl]
    rfl

theorem edited_append (old : Option Setting) (edits edits' : List (Path × Setting)) :
    edited old (edits ++ edits') = edited (edited old edits) edits' := List.foldl_append

/-- **What a layer does to a key** is its edits, one after the other. -/
theorem valueAt_addLayer (h : ∀ entry ∈ layer, givesTable sectionName entry = true) :
    valueAt sectionName key (addLayer base layer) =
      edited (valueAt sectionName key base) (editsOf sectionName key layer) := by
  induction layer generalizing base with
  | nil => rfl
  | cons entry rest ih =>
    obtain ⟨hentry, hrest⟩ := List.forall_mem_cons.1 h
    rw [editsOf, List.flatMap_cons, edited_append, ← valueAt_put hentry, ← editsOf, ← ih hrest]
    rfl

theorem hasTable_addLayer (h : ∀ entry ∈ layer, givesTable sectionName entry = true)
    (hbase : hasTable sectionName base = true) :
    hasTable sectionName (addLayer base layer) = true := by
  induction layer generalizing base with
  | nil => exact hbase
  | cons entry rest ih =>
    obtain ⟨hentry, hrest⟩ := List.forall_mem_cons.1 h
    exact ih hrest (hasTable_put hentry hbase)

end

/-! ## The last layer that sets a key -/

/-- The value that a layer gives a key of a section: its edits of the key, with nothing before. -/
def given (sectionName key : String) (layer : Layer) : Option Setting :=
  edited none (editsOf sectionName key layer)

/-- The last of some layers that sets a key of a section. -/
def lastSetter (sectionName key : String) (layers : List Layer) : Option Layer :=
  layers.reverse.find? fun layer => (given sectionName key layer).isSome

/-- The value that the last of some layers to set a key of a section gives it. -/
def lastGiven (sectionName key : String) (layers : List Layer) : Option Setting :=
  (lastSetter sectionName key layers).bind (given sectionName key)

/-- Whether an entry of a layer addresses an item at a key of a section. -/
def addressesItem (sectionName key : String) (entry : String × Setting) : Bool :=
  match pathOfKey entry.1 with
  | .key name :: .key name' :: .item _ :: _ => name = sectionName && name' = key
  | _ => false

section

variable {sectionName key : String} {layer : Layer} {layers : List Layer} {base : Setting}

theorem edited_concat (old : Option Setting) (edits : List (Path × Setting))
    (edit : Path × Setting) : edited old (edits ++ [edit]) =
      some (put edit.2 edit.1 (edited old edits)) := by
  rw [edited_append]
  rfl

/-- An edit of an item comes from an entry that addresses one. -/
theorem exists_addressesItem {number : Int} {path : Path} {value : Setting}
    (h : (.item number :: path, value) ∈ editsOf sectionName key layer) :
    ∃ entry ∈ layer, addressesItem sectionName key entry = true := by
  obtain ⟨entry, hentry, hedit⟩ := List.mem_flatMap.1 h
  refine ⟨entry, hentry, ?_⟩
  rw [editsOfEntry] at hedit
  split at hedit
  · split at hedit <;> simp at hedit
  next name name' rest hpath =>
    split at hedit
    next hnames =>
      obtain ⟨rfl, -⟩ := Prod.mk.inj (List.mem_singleton.1 hedit)
      rw [addressesItem, hpath]
      simpa using hnames
    next => cases hedit
  · cases hedit

theorem lastSetter_concat (layers : List Layer) (layer : Layer) :
    lastSetter sectionName key (layers ++ [layer]) =
      if (given sectionName key layer).isSome then some layer
      else lastSetter sectionName key layers := by
  rw [lastSetter, List.reverse_append, List.reverse_singleton, List.singleton_append,
    List.find?_cons]
  split <;> simp_all [lastSetter]

theorem mem_of_lastSetter (h : lastSetter sectionName key layers = some layer) :
    layer ∈ layers :=
  List.mem_reverse.1 (List.mem_of_find?_eq_some h)

/-- What is neither a table nor made by addressing an item replaces whatever was there. -/
theorem put_eq_put {value : Setting} {path : Path} {old : Option Setting}
    (htable : ∀ members, put value path old ≠ .table members)
    (hitem : ∀ number rest, path ≠ .item number :: rest) (old' : Option Setting) :
    put value path old' = put value path old := by
  rcases path with _ | ⟨name | number, rest⟩
  · cases value with
    | table members => exact absurd rfl (htable _)
    | _ => rfl
  · exact absurd rfl (htable _)
  · exact absurd rfl (hitem number rest)

/-- **The last edit decides** what is neither a table nor a list of which an item is addressed. -/
theorem edited_eq_edited {edits : List (Path × Setting)} {old : Option Setting} (hne : edits ≠ [])
    (htable : ∀ members, edited old edits ≠ some (.table members))
    (hitem : ∀ items, edited old edits = some (.list items) →
      ∀ number rest value, (.item number :: rest, value) ∉ edits) (old' : Option Setting) :
    edited old' edits = edited old edits := by
  obtain ⟨before, edit, rfl⟩ := (List.eq_nil_or_concat edits).resolve_left hne
  simp only [List.concat_eq_append, edited_concat] at htable hitem ⊢
  refine congrArg some (put_eq_put (fun members heq => htable members (congrArg some heq))
    (fun number rest heq => ?_) _)
  rw [heq] at hitem
  refine hitem _ rfl number rest edit.2 (List.mem_append_right _ (List.mem_singleton.2 ?_))
  rw [← heq]

theorem isSome_edited {edits : List (Path × Setting)} (hne : edits ≠ []) (old : Option Setting) :
    (edited old edits).isSome = true := by
  obtain ⟨before, edit, rfl⟩ := (List.eq_nil_or_concat edits).resolve_left hne
  rw [List.concat_eq_append, edited_concat]
  rfl

/-- **The last layer that sets a key decides**, unless its value is a table, or a list of which this
layer addresses an item. -/
theorem valueAt_eq_lastGiven
    (h : ∀ layer ∈ layers, ∀ entry ∈ layer, givesTable sectionName entry = true)
    (hbase : valueAt sectionName key base = none)
    (htable : ∀ members,
      valueAt sectionName key (layers.foldl addLayer base) ≠ some (.table members))
    (hitem : ∀ items layer,
      valueAt sectionName key (layers.foldl addLayer base) = some (.list items) →
      lastSetter sectionName key layers = some layer →
      ∀ entry ∈ layer, addressesItem sectionName key entry = false) :
    valueAt sectionName key (layers.foldl addLayer base) = lastGiven sectionName key layers := by
  induction layers using List.reverseRecOn with
  | nil => exact hbase
  | append_singleton layers layer ih =>
    obtain ⟨hlayers, hlayer⟩ := List.forall_mem_append.1 h
    replace hlayer := hlayer layer (List.mem_singleton_self layer)
    rw [List.foldl_append, List.foldl_cons, List.foldl_nil] at htable hitem ⊢
    rw [valueAt_addLayer hlayer] at htable hitem ⊢
    rw [lastGiven, lastSetter_concat, given]
    rw [lastSetter_concat, given] at hitem
    rcases eq_or_ne (editsOf sectionName key layer) [] with hedits | hedits
    · -- a layer without edits is passed over
      rw [hedits] at htable hitem ⊢
      exact ih hlayers htable hitem
    · rw [if_pos (isSome_edited hedits _)] at hitem ⊢
      rw [Option.bind_some, given]
      refine (edited_eq_edited hedits htable (fun items hlist number rest value hedit => ?_) _).symm
      obtain ⟨entry, hentry, haddress⟩ := exists_addressesItem hedit
      have hnone := hitem items layer hlist rfl entry hentry
      rw [haddress] at hnone
      cases hnone

end

/-! ## The order of the entries -/

/-- A layer sets a key at most once: of two entries, one leaves the key alone. -/
def SetsOnce (sectionName key : String) (layer : Layer) : Prop :=
  layer.Pairwise fun entry entry' =>
    editsOfEntry sectionName key entry = [] ∨ editsOfEntry sectionName key entry' = []

instance (sectionName key : String) (layer : Layer) : Decidable (SetsOnce sectionName key layer) :=
  inferInstanceAs (Decidable (layer.Pairwise _))

section

variable {sectionName key : String} {layer layer' : Layer} {sources layers : List Layer}

theorem SetsOnce.perm (h : SetsOnce sectionName key layer) (hperm : layer.Perm layer') :
    SetsOnce sectionName key layer' :=
  List.Pairwise.perm h hperm Or.symm

/-- **A layer that sets a key once** does the same to it in every order of its entries. -/
theorem editsOf_eq_of_perm (hperm : layer.Perm layer') (h : SetsOnce sectionName key layer) :
    editsOf sectionName key layer = editsOf sectionName key layer' := by
  induction hperm with
  | nil => rfl
  | cons entry _ ih =>
    rw [editsOf, editsOf, List.flatMap_cons, List.flatMap_cons, ← editsOf, ← editsOf,
      ih (List.pairwise_cons.1 h).2]
  | swap entry entry' rest =>
    have honce := (List.pairwise_cons.1 h).1 entry List.mem_cons_self
    simp only [editsOf, List.flatMap_cons]
    obtain hnone | hnone := honce <;> rw [hnone] <;> simp
  | trans hfirst _ ih ih' => exact (ih h).trans (ih' (h.perm hfirst))

theorem isSome_given_iff : (given sectionName key layer).isSome = true ↔
    editsOf sectionName key layer ≠ [] := by
  refine ⟨fun h hedits => ?_, fun h => isSome_edited h none⟩
  rw [given, hedits] at h
  cases h

/-- Whether a layer sets a key does not depend on the order of its entries. -/
theorem isSome_given_eq_of_perm (hperm : layer.Perm layer') :
    (given sectionName key layer).isSome = (given sectionName key layer').isSome := by
  have hedits : (editsOf sectionName key layer).Perm (editsOf sectionName key layer') :=
    hperm.flatMap_right _
  rw [Bool.eq_iff_iff, isSome_given_iff, isSome_given_iff, ne_eq, ne_eq, ← List.length_eq_zero_iff,
    ← List.length_eq_zero_iff, hedits.length_eq]

/-- **The order of the entries is no matter** to what the last layer that sets a key gives it, if
this layer sets the key once. -/
theorem lastGiven_eq_of_perm (horder : List.Forall₂ List.Perm sources layers)
    (honce : ∀ layer, lastSetter sectionName key sources = some layer →
      SetsOnce sectionName key layer) :
    lastGiven sectionName key layers = lastGiven sectionName key sources := by
  have hreverse := List.forall₂_reverse_iff.2 horder
  simp only [lastSetter] at honce
  simp only [lastGiven, lastSetter]
  generalize sources.reverse = sources at hreverse honce ⊢
  generalize layers.reverse = layers at hreverse ⊢
  -- down from the last layer to one that sets the key
  induction hreverse with
  | nil => rfl
  | @cons layer layer' _ _ hperm _ ih =>
    rw [List.find?_cons, ← isSome_given_eq_of_perm hperm]
    rw [List.find?_cons] at honce ⊢
    cases hset : (given sectionName key layer).isSome with
    | true =>
      rw [hset] at honce
      rw [Option.bind_some, Option.bind_some, given, given, editsOf_eq_of_perm hperm (honce _ rfl)]
    | false =>
      rw [hset] at honce
      exact ih honce

end

end Settings

end Eligibility
