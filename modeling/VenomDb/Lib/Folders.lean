import Mathlib.Data.List.AList

/-!
# Directories of files

A directory is a map from names to contents, changed by one call after another. A file is
replaced by writing it under another name and renaming it: wherever a crash cuts the calls off,
there is the old file or the new one.
-/

/-- The files of a directory, by name. -/
abbrev Folder (Name Item : Type) := AList fun _ : Name => List Item

namespace Folder

variable {Name Item : Type} [DecidableEq Name] {folder : Folder Name Item}

/-- What a file holds; a missing one holds nothing. -/
def content (folder : Folder Name Item) (name : Name) : List Item := (folder.lookup name).getD []

/-- A call that changes a file. -/
inductive Call (Name Item : Type)
  /-- Create the file unless it is there. -/
  | touch (name : Name)
  /-- Create the file, or make it empty. -/
  | truncate (name : Name)
  | append (name : Name) (items : List Item)
  /-- Write at an offset; a gap before it reads as zeros. -/
  | write (name : Name) (offset : ℕ) (items : List Item)
  | rename (source target : Name)

section Calls

variable [Zero Item]

/-- Some items written over others at an offset. -/
def overwrite (offset : ℕ) (items old : List Item) : List Item :=
  old.take offset ++ List.replicate (offset - old.length) 0 ++ items ++
    old.drop (offset + items.length)

def perform (folder : Folder Name Item) : Call Name Item → Folder Name Item
  | .touch name => if name ∈ folder then folder else folder.insert name []
  | .truncate name => folder.insert name []
  | .append name items => folder.insert name (folder.content name ++ items)
  | .write name offset items => folder.insert name (overwrite offset items (folder.content name))
  | .rename source target =>
      match folder.lookup source with
      | none => folder
      | some items => (folder.erase source).insert target items

/-- One call after another. -/
def run (calls : List (Call Name Item)) (folder : Folder Name Item) : Folder Name Item :=
  calls.foldl perform folder

theorem run_append (first second : List (Call Name Item)) (folder : Folder Name Item) :
    run (first ++ second) folder = run second (run first folder) :=
  List.foldl_append

theorem run_cons (call : Call Name Item) (calls : List (Call Name Item))
    (folder : Folder Name Item) : run (call :: calls) folder = run calls (perform folder call) :=
  rfl

end Calls

/-- A part of one list of calls, or all of it and a part of another. -/
theorem prefix_append_cases {α : Type} {part first second : List α}
    (cut : part <+: first ++ second) :
    part <+: first ∨ ∃ rest, rest <+: second ∧ part = first ++ rest := by
  rcases List.prefix_or_prefix_of_prefix cut (List.prefix_append first second) with
    inside | ⟨rest, rfl⟩
  · exact .inl inside
  · exact .inr ⟨rest, (List.prefix_append_right_inj first).mp cut, rfl⟩

@[simp]
theorem content_insert (name : Name) (items : List Item) :
    content (folder.insert name items) name = items := by
  simp [content]

theorem content_insert_of_ne {name other : Name} (ne : other ≠ name) (items : List Item) :
    content (folder.insert name items) other = folder.content other := by
  rw [content, AList.lookup_insert_ne ne, content]

theorem content_erase_of_ne {name other : Name} (ne : other ≠ name) :
    content (folder.erase name) other = folder.content other := by
  rw [content, AList.lookup_erase_ne ne, content]

/-- Items appended one by one, so that a crash may come after each of them. -/
def appendEach (name : Name) (items : List Item) : List (Call Name Item) :=
  items.map fun item => .append name [item]

omit [DecidableEq Name] in
theorem of_prefix_appendEach {name : Name} {items : List Item} {part : List (Call Name Item)}
    (cut : part <+: appendEach name items) :
    ∃ written, written <+: items ∧ part = appendEach name written := by
  refine ⟨items.take part.length, List.take_prefix _ _, ?_⟩
  rw [List.prefix_iff_eq_take] at cut
  rw [appendEach, List.map_take]
  exact cut

section Appending

variable [Zero Item]

theorem run_appendEach_insert (name : Name) (old items : List Item) :
    run (appendEach name items) (folder.insert name old) = folder.insert name (old ++ items) := by
  induction items generalizing old with
  | nil => rw [List.append_nil, appendEach, List.map_nil, run, List.foldl_nil]
  | cons item items ih =>
      rw [appendEach, List.map_cons, run_cons, perform, content_insert, AList.insert_insert]
      have rest := ih (old ++ [item])
      rw [List.append_assoc, List.singleton_append] at rest
      exact rest

theorem run_appendEach (name : Name) (items : List Item) :
    run (appendEach name items) folder =
      if items = [] then folder else folder.insert name (folder.content name ++ items) := by
  cases items with
  | nil => rfl
  | cons item items =>
      have rest : run (appendEach name items) (folder.insert name (folder.content name ++ [item])) =
          folder.insert name (folder.content name ++ [item] ++ items) :=
        run_appendEach_insert name _ items
      rw [List.append_assoc, List.singleton_append] at rest
      rw [if_neg (List.cons_ne_nil _ _)]
      exact rest

end Appending

section Replacing

variable {temporary target : Name} {items : List Item}

/-- Write a file under a temporary name, one item after the other, and rename it. -/
def replace (temporary target : Name) (items : List Item) : List (Call Name Item) :=
  .truncate temporary :: (appendEach temporary items ++ [.rename temporary target])

theorem erase_insert (name : Name) (items : List Item) :
    (folder.insert name items).erase name = folder.erase name := by
  apply AList.ext
  change List.kerase name (folder.insert name items).entries = List.kerase name folder.entries
  have first : List.kerase name (⟨name, items⟩ :: List.kerase name folder.entries) =
      List.kerase name folder.entries := List.kerase_cons_eq rfl
  rw [AList.entries_insert, first]

variable [Zero Item]

theorem run_replace :
    run (replace temporary target items) folder =
      (folder.erase temporary).insert target items := by
  have written : run (appendEach temporary items) (folder.insert temporary []) =
      folder.insert temporary items := run_appendEach_insert temporary [] items
  rw [replace, run_cons, perform, run_append, written, run_cons, perform, AList.lookup_insert]
  dsimp only
  rw [erase_insert]
  rfl

/-- Only the last call touches the file that is replaced. -/
theorem run_replace_cut {part rest : List (Call Name Item)}
    (whole : replace temporary target items = part ++ rest) (short : rest ≠ []) :
    run part folder = folder ∨ ∃ written, run part folder = folder.insert temporary written := by
  rcases List.eq_nil_or_concat rest with nothing | ⟨front, last, rfl⟩
  · exact absurd nothing short
  rw [replace, List.concat_eq_append, ← List.append_assoc, ← List.cons_append] at whole
  have inside : part <+: .truncate temporary :: appendEach temporary items :=
    ⟨front, (List.append_inj_left' whole rfl).symm⟩
  cases part with
  | nil => exact .inl rfl
  | cons call part =>
      rcases List.cons_prefix_cons.mp inside with ⟨rfl, appends⟩
      rcases of_prefix_appendEach appends with ⟨written, begun, rfl⟩
      rw [run_cons, perform, run_appendEach_insert, List.nil_append]
      exact .inr ⟨written, rfl⟩

end Replacing

section Kinds

variable {Key Value : Type} {key : Name → Option Key} {value : List Item → Value}

/-- No two names have the same key. -/
def Apart (key : Name → Option Key) : Prop :=
  ∀ ⦃name other : Name⦄ ⦃found : Key⦄, key name = some found → key other = some found → name = other

/-- An entry under its key. -/
def rekey (key : Name → Option Key) (value : List Item → Value) (entry : Σ _ : Name, List Item) :
    Option (Σ _ : Key, Value) :=
  (key entry.1).map fun found => ⟨found, value entry.2⟩

omit [DecidableEq Name] in
theorem rekey_eq_some {entry : Σ _ : Name, List Item}
    {entry' : Σ _ : Key, Value} (kept : rekey key value entry = some entry') :
    key entry.1 = some entry'.1 := by
  rcases Option.map_eq_some_iff.mp kept with ⟨found, isKey, rfl⟩
  exact isKey

/-- The files whose names have a key, by their keys and as what their contents stand for. -/
def ofKind (apart : Apart key) (value : List Item → Value) (folder : Folder Name Item) :
    AList fun _ : Key => Value where
  entries := folder.entries.filterMap (rekey key value)
  nodupKeys := by
    apply List.nodupKeys_iff_pairwise.mpr
    apply List.Pairwise.filterMap _ _ (List.nodupKeys_iff_pairwise.mp folder.nodupKeys)
    intro entry other ne first isFirst second isSecond same
    apply ne
    apply apart (rekey_eq_some isFirst)
    rw [same]
    exact rekey_eq_some isSecond

variable {apart : Apart key}

theorem filterMap_kerase_of_none {name : Name} (other : key name = none)
    (entries : List (Σ _ : Name, List Item)) :
    (entries.kerase name).filterMap (rekey key value) = entries.filterMap (rekey key value) := by
  induction entries with
  | nil => rfl
  | cons entry entries ih =>
      by_cases here : name = entry.1
      · have dropped : rekey key value entry = none := by rw [rekey, ← here, other, Option.map_none]
        rw [List.kerase_cons_eq here, List.filterMap_cons_none dropped]
      · rw [List.kerase_cons_ne here, List.filterMap_cons, List.filterMap_cons, ih]

theorem ofKind_erase_of_none {name : Name} (other : key name = none) :
    ofKind apart value (folder.erase name) = ofKind apart value folder :=
  AList.ext (filterMap_kerase_of_none other folder.entries)

theorem ofKind_insert_of_none {name : Name} (other : key name = none) (items : List Item) :
    ofKind apart value (folder.insert name items) = ofKind apart value folder := by
  apply AList.ext
  have dropped : rekey key value ⟨name, items⟩ = none := by rw [rekey, other, Option.map_none]
  change (folder.insert name items).entries.filterMap (rekey key value) = _
  rw [AList.entries_insert, List.filterMap_cons_none dropped]
  exact filterMap_kerase_of_none other folder.entries

variable [DecidableEq Key]

theorem filterMap_kerase (apart : Apart key) {name : Name} {found : Key}
    (isKey : key name = some found) (entries : List (Σ _ : Name, List Item)) :
    (entries.kerase name).filterMap (rekey key value) =
      (entries.filterMap (rekey key value)).kerase found := by
  induction entries with
  | nil => rfl
  | cons entry entries ih =>
      by_cases here : name = entry.1
      · have kept : rekey key value entry = some ⟨found, value entry.2⟩ := by
          rw [rekey, ← here, isKey, Option.map_some]
        have first : (⟨found, value entry.2⟩ :: entries.filterMap (rekey key value)).kerase found =
            entries.filterMap (rekey key value) := List.kerase_cons_eq rfl
        rw [List.kerase_cons_eq here, List.filterMap_cons_some kept, first]
      · rw [List.kerase_cons_ne here]
        rcases kept : rekey key value entry with _ | entry'
        · rw [List.filterMap_cons_none kept, List.filterMap_cons_none kept, ih]
        · have ne : found ≠ entry'.1 := by
            rintro rfl
            exact here (apart isKey (rekey_eq_some kept))
          rw [List.filterMap_cons_some kept, List.filterMap_cons_some kept,
            List.kerase_cons_ne ne, ih]

theorem ofKind_insert {name : Name} {found : Key} (isKey : key name = some found)
    (items : List Item) :
    ofKind apart value (folder.insert name items) =
      (ofKind apart value folder).insert found (value items) := by
  apply AList.ext
  have kept : rekey key value ⟨name, items⟩ = some ⟨found, value items⟩ := by
    rw [rekey, isKey, Option.map_some]
  change (folder.insert name items).entries.filterMap (rekey key value) = _
  rw [AList.entries_insert, AList.entries_insert, List.filterMap_cons_some kept,
    filterMap_kerase apart isKey]
  rfl

end Kinds

end Folder
