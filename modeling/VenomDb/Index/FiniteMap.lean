import VenomDb.Index.Arranged

/-!
# The B-tree is a finite map

`Denotes tree content` relates a tree to the list of its entries in key order. As long
as no key is inserted twice, the operations of the tree are those of a finite map on
this list, and a range scan gives the values of a range in key order.
-/

namespace VenomDb.Index

variable {Key Value : Type} [LinearOrder Key]

section Leaves

variable {leaf : LeafNode Key Value} {low high : Option Key} {key : Key}

/-- Looking a key up in a leaf. -/
theorem LeafNode.Valid.find (valid : leaf.Valid (· < ·) low high) (value : Value) :
    ((leaf.findKeyIndex key).bind fun index => leaf.rids[index]?) = some value ↔
      (key, value) ∈ leaf.entries := by
  rw [Option.bind_eq_some_iff, LeafNode.entries, List.mem_iff_getElem]
  constructor
  · rintro ⟨index, found, valueFound⟩
    rw [LeafNode.findKeyIndex, List.findIdx?_eq_some_iff_getElem] at found
    rcases found with ⟨bound, isKey, -⟩
    rcases List.getElem?_eq_some_iff.mp valueFound with ⟨bound', isValue⟩
    refine ⟨index, by simp [List.length_zip]; omega, ?_⟩
    simpa [isValue] using isKey
  · rintro ⟨index, bound, equation⟩
    rw [List.length_zip, lt_min_iff] at bound
    simp only [List.getElem_zip, Prod.mk.injEq] at equation
    refine ⟨index, ?_, by rw [List.getElem?_eq_getElem bound.2, equation.2]⟩
    rw [LeafNode.findKeyIndex, List.findIdx?_eq_some_iff_getElem]
    refine ⟨bound.1, by simpa using equation.1, fun earlier before => ?_⟩
    have less := (List.pairwise_iff_getElem.mp valid.sorted) earlier index (by omega) bound.1 before
    simpa using ne_of_lt (equation.1 ▸ less)

theorem LeafNode.findKeyIndex_eq_none :
    leaf.findKeyIndex key = none ↔ key ∉ leaf.keys := by
  simp only [LeafNode.findKeyIndex, List.findIdx?_eq_none_iff, decide_eq_false_iff_not]
  exact ⟨fun absent inside => absent key inside rfl, fun absent other inside eq =>
    absent (eq ▸ inside)⟩

/-- Erasing a key of a sorted list and its value. -/
theorem zip_eraseIdx {keys : List Key} {values : List Value} {index : ℕ}
    (lengths : keys.length = values.length) (sorted : keys.Pairwise (· < ·))
    (found : keys.findIdx? (fun candidate => candidate = key) = some index) :
    (keys.eraseIdx index).zip (values.eraseIdx index) =
      (keys.zip values).filter fun entry => entry.1 ≠ key := by
  induction keys generalizing values index with
  | nil => simp at found
  | cons first keys ih =>
      cases values with
      | nil => simp at lengths
      | cons value values =>
          rw [List.pairwise_cons] at sorted
          rw [List.findIdx?_cons] at found
          by_cases here : first = key
          · obtain rfl : 0 = index := by simpa [here] using found
            have others : (keys.zip values).filter (fun entry => entry.1 ≠ key) =
                keys.zip values := by
              rw [List.filter_eq_self]
              intro entry inside
              have later := sorted.1 entry.1 (List.of_mem_zip inside).1
              simpa using ne_of_gt (here ▸ later)
            simpa [here] using others.symm
          · simp only [here, decide_false, Bool.false_eq_true, if_false,
              Option.map_eq_some_iff] at found
            rcases found with ⟨rest, found, rfl⟩
            have tail := ih (by simpa using lengths) sorted.2 found
            simpa [here] using tail

theorem LeafNode.Valid.entries_erase (valid : leaf.Valid (· < ·) low high) (key : Key) :
    (leaf.erase key).entries = leaf.entries.filter fun entry => entry.1 ≠ key := by
  rw [LeafNode.erase]
  split
  · next index found => exact zip_eraseIdx valid.lengths valid.sorted found
  · next missing =>
      have absent := LeafNode.findKeyIndex_eq_none.mp missing
      symm
      rw [List.filter_eq_self]
      intro entry inside
      have isKey : entry.1 ∈ leaf.keys := (List.of_mem_zip inside).1
      simpa using fun eq : entry.1 = key => absent (eq ▸ isKey)

end Leaves

namespace BTree

/-- The tree holds exactly the entries of a list in key order. -/
def Denotes (tree : BTree Key Value) (content : List (Key × Value)) : Prop :=
  ∃ depth leaves ids, tree.Arranged (· < ·) depth leaves ids ∧ content = entries leaves

variable {tree : BTree Key Value} {content : List (Key × Value)}

theorem Denotes.sorted (denotes : tree.Denotes content) :
    content.Pairwise fun left right => left.1 < right.1 := by
  rcases denotes with ⟨depth, leaves, ids, arranged, rfl⟩
  exact arranged.shape.sorted

/-- A key has one value. -/
theorem Denotes.unique (denotes : tree.Denotes content) {key : Key} {value value' : Value}
    (inside : (key, value) ∈ content) (inside' : (key, value') ∈ content) : value = value' := by
  by_contra ne
  have pairwise := denotes.sorted
  rcases List.mem_iff_getElem.mp inside with ⟨index, bound, isFirst⟩
  rcases List.mem_iff_getElem.mp inside' with ⟨index', bound', isSecond⟩
  rcases lt_trichotomy index index' with lt | rfl | gt
  · have less := List.pairwise_iff_getElem.mp pairwise index index' bound bound' lt
    simp [isFirst, isSecond] at less
  · exact ne (by simpa using congrArg Prod.snd (isFirst.symm.trans isSecond))
  · have less := List.pairwise_iff_getElem.mp pairwise index' index bound' bound gt
    simp [isFirst, isSecond] at less

theorem denotes_new : (new : BTree Key Value).Denotes [] :=
  ⟨0, [(0, [])], [0], arranged_new, by simp⟩

theorem Denotes.search (denotes : tree.Denotes content) (key : Key) (value : Value) :
    tree.search key = some value ↔ (key, value) ∈ content := by
  rcases denotes with ⟨depth, leaves, ids, ⟨shape, nodup, -, -, -⟩, rfl⟩
  rcases shape.focus nodup (within_all key) (shape.fuel nodup).1 with
    ⟨leafId, leaf, low, high, before, after, rfl, -, found, valid, -, rfl, isBefore, isAfter, -, -⟩
  have result : tree.search key =
      (leaf.findKeyIndex key).bind fun index => leaf.rids[index]? := by
    simp [BTree.search, found]
  rw [result, valid.find]
  simp only [entries_append, entries_cons, List.mem_append]
  constructor
  · exact fun inside => .inr (.inl inside)
  · rintro (early | here | late)
    · exact absurd (isBefore _ early) (lt_irrefl _)
    · exact here
    · exact absurd (isAfter _ late) (lt_irrefl _)

/-- Inserting a key that is not present. -/
theorem Denotes.insert (denotes : tree.Denotes content) {key : Key} (value : Value)
    (missing : ∀ value, (key, value) ∉ content) :
    ∃ content', (tree.insert key value).Denotes content' ∧
      content'.Perm ((key, value) :: content) := by
  rcases denotes with ⟨depth, leaves, ids, arranged, rfl⟩
  have fits : ∀ entry ∈ entries leaves, key ≤ entry.1 → key < entry.1 := by
    rintro ⟨other, value⟩ inside le
    refine lt_of_le_of_ne le ?_
    rintro rfl
    exact missing value inside
  rcases arranged.insert value fits with ⟨depth', leaves', ids', arranged', perm⟩
  exact ⟨entries leaves', ⟨depth', leaves', ids', arranged', rfl⟩, perm⟩

/-- Deleting a key. -/
theorem Denotes.delete (denotes : tree.Denotes content) (key : Key) :
    (tree.delete key).2.Denotes (content.filter fun entry => entry.1 ≠ key) := by
  rcases denotes with ⟨depth, leaves, ids, arranged, rfl⟩
  rcases arranged.delete key with
    ⟨leafId, leaf, low, high, before, after, valid, rfl, isBefore, isAfter, deleted⟩
  refine ⟨depth, _, ids, deleted, ?_⟩
  have beforeKept : (entries before).filter (fun entry => entry.1 ≠ key) = entries before := by
    rw [List.filter_eq_self]
    exact fun entry inside => by simpa using ne_of_lt (isBefore entry inside)
  have afterKept : (entries after).filter (fun entry => entry.1 ≠ key) = entries after := by
    rw [List.filter_eq_self]
    exact fun entry inside => by simpa using ne_of_gt (isAfter entry inside)
  simp only [entries_append, entries_cons, List.filter_append, beforeKept, afterKept,
    valid.entries_erase]

theorem Denotes.rangeScan (denotes : tree.Denotes content) (first last : Key) :
    tree.rangeScan first last = inRange first last content := by
  rcases denotes with ⟨depth, leaves, ids, arranged, rfl⟩
  rcases arranged.rangeScan first last with ⟨leafId, before, after, leaf, -, rfl, isBefore, scanned⟩
  rw [scanned, entries_append, inRange_append, inRange_of_below isBefore, List.nil_append]

/-- A deletion reports whether the key was there. -/
theorem Denotes.delete_found (denotes : tree.Denotes content) (key : Key) :
    (tree.delete key).1 = (tree.search key).isSome := by
  rcases denotes with ⟨depth, leaves, ids, ⟨shape, nodup, -, -, -⟩, -⟩
  rcases shape.focus nodup (within_all key) (shape.fuel nodup).1 with
    ⟨leafId, leaf, low, high, before, after, rfl, -, found, valid, -⟩
  simp only [BTree.delete, BTree.search, found, Option.bind_eq_bind, Option.bind_some]
  cases position : leaf.findKeyIndex key with
  | none => rfl
  | some index =>
      have bound : index < leaf.rids.length := by
        rw [← valid.1]
        exact (List.findIdx?_eq_some_iff_getElem.mp position).1
      simp [bound]

/-- The trees that calls of `insert` and `delete` make from an empty one, each with the value
last inserted for every key. A key that is present is not inserted. -/
inductive Built : BTree Key Value → (Key → Option Value) → Prop
  | new : Built BTree.new fun _ => none
  | insert {tree : BTree Key Value} {map : Key → Option Value} (key : Key) (value : Value) :
      Built tree map → map key = none →
        Built (tree.insert key value) (Function.update map key (some value))
  | delete {tree : BTree Key Value} {map : Key → Option Value} (key : Key) :
      Built tree map → Built (tree.delete key).2 (Function.update map key none)

variable {map : Key → Option Value}

theorem Built.denotes (built : Built tree map) :
    ∃ content, tree.Denotes content ∧ ∀ key value, (key, value) ∈ content ↔
      map key = some value := by
  induction built with
  | new => exact ⟨[], denotes_new, by simp⟩
  | @insert tree map key value before missing ih =>
      rcases ih with ⟨content, denotes, same⟩
      have absent : ∀ value, (key, value) ∉ content := by
        intro value inside
        rw [same, missing] at inside
        contradiction
      rcases denotes.insert value absent with ⟨content', denotes', perm⟩
      refine ⟨content', denotes', ?_⟩
      intro other found
      rw [perm.mem_iff, List.mem_cons]
      by_cases isKey : other = key
      · subst isKey
        simp [absent, eq_comm]
      · simp [isKey, same]
  | @delete tree map key before ih =>
      rcases ih with ⟨content, denotes, same⟩
      refine ⟨_, denotes.delete key, ?_⟩
      intro other found
      rw [List.mem_filter, same]
      by_cases isKey : other = key
      · simp [isKey]
      · simp [isKey]

/-- The B-tree is a finite map. -/
theorem Built.finiteMap (built : Built tree map) :
    (∀ key, tree.search key = map key) ∧ (∀ key, (tree.delete key).1 = (map key).isSome) ∧
      ∀ first last, ∃ keys : List Key, keys.Pairwise (· < ·) ∧
        (∀ key, key ∈ keys ↔ first ≤ key ∧ key ≤ last ∧ (map key).isSome) ∧
        (tree.rangeScan first last).map some = keys.map map := by
  rcases built.denotes with ⟨content, denotes, same⟩
  have searched : ∀ key, tree.search key = map key := by
    intro key
    apply Option.ext
    intro value
    rw [denotes.search, same]
  refine ⟨searched, ?_, ?_⟩
  · intro key
    rw [denotes.delete_found, searched]
  · intro first last
    let inside := content.filter fun entry => first ≤ entry.1 ∧ entry.1 ≤ last
    refine ⟨inside.map Prod.fst, ?_, ?_, ?_⟩
    · rw [List.pairwise_map]
      exact denotes.sorted.filter _
    · intro key
      simp only [inside, List.mem_map, List.mem_filter, decide_eq_true_eq, Prod.exists,
        Option.isSome_iff_exists, same]
      constructor
      · rintro ⟨other, value, ⟨found, isFirst, isLast⟩, rfl⟩
        exact ⟨isFirst, isLast, value, found⟩
      · rintro ⟨isFirst, isLast, value, found⟩
        exact ⟨key, value, ⟨found, isFirst, isLast⟩, rfl⟩
    · rw [denotes.rangeScan, inRange, List.map_map, List.map_map]
      apply List.map_congr_left
      intro entry found
      exact ((same entry.1 entry.2).mp (List.mem_of_mem_filter found)).symm

/-- A key inserted, deleted and inserted again with another record id. -/
theorem search_again :
    ((((new : BTree Int64 Rid).insert 5 ⟨0, 0⟩).delete 5).2.insert 5 ⟨0, 1⟩).search 5 =
      some ⟨0, 1⟩ := by
  have once : Built ((new : BTree Int64 Rid).insert 5 ⟨0, 0⟩) _ := .insert 5 _ .new rfl
  have again := Built.insert 5 ⟨0, 1⟩ (once.delete 5) (by simp)
  rw [again.finiteMap.1]
  simp

end BTree

end VenomDb.Index
