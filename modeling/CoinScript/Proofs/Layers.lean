import CoinScript.ConfigStore
/-!
# Layers of a configuration

A configuration is a default with a file and the environment merged over it. Seen from a path of
keys, merging is simple: a value of the upper layer hides what lies below its path, and everything
else of the lower layer shows through. This holds as long as no object of the upper layer has a key
twice, which is so for everything that is read.

* `Value.Distinct`: no object on the way of a path has a key twice;
* `Value.get?_merge_of_some`, `Value.get?_merge_of_none`: merging, seen from one key;
* `Value.getPath?_merge_iff`: merging, seen from a path;
* `Value.merge_merge`: merging the same layer again changes nothing;
* `Value.merge_right_biased`: these together, for objects;
* `ConfigStore.layered_with_file`: where the values of a configuration come from.
-/

namespace CoinScript

namespace Json

/-! ## Members -/

namespace Members

theorem get?_insert (key k : String) (value : Value) (members : Members) :
    get? k (insert key value members) = if key = k then some value else get? k members := by
  induction members with
  | nil => rfl
  | cons member rest ih =>
    obtain ⟨first, v⟩ := member
    by_cases same : first = key
    · subst same
      rw [insert, if_pos rfl, get?, get?]
      split <;> rfl
    · rw [insert, if_neg same, get?, get?, ih]
      by_cases found : first = k
      · rw [if_pos found, if_neg fun h => same (found.trans h.symm), if_pos found]
      · rw [if_neg found, if_neg found]

/-- Setting a key to the value that it has changes nothing. -/
theorem insert_of_get? {key : String} {value : Value} {members : Members}
    (h : get? key members = some value) : insert key value members = members := by
  induction members with
  | nil => cases h
  | cons member rest ih =>
    obtain ⟨first, v⟩ := member
    rw [get?] at h
    rw [insert]
    split at h
    · next same =>
      cases h
      rw [if_pos same]
    · next other => rw [if_neg other, ih h]

theorem get?_eq_none_of_not_mem {key : String} {members : Members}
    (h : key ∉ members.map Prod.fst) : get? key members = none := by
  induction members with
  | nil => rfl
  | cons member rest ih =>
    rw [List.map_cons, List.mem_cons, not_or] at h
    rw [get?, if_neg (Ne.symm h.1), ih h.2]

theorem mem_of_get? {key : String} {value : Value} {members : Members}
    (h : get? key members = some value) : (key, value) ∈ members := by
  induction members with
  | nil => cases h
  | cons member rest ih =>
    obtain ⟨first, v⟩ := member
    rw [get?] at h
    split at h
    · next same =>
      cases h
      exact same ▸ List.mem_cons_self
    · exact List.mem_cons_of_mem _ (ih h)

/-- Where no key is there twice, every member is found by its key. -/
theorem get?_of_mem {key : String} {value : Value} {members : Members}
    (nodup : (members.map Prod.fst).Nodup) (h : (key, value) ∈ members) :
    get? key members = some value := by
  induction members with
  | nil => cases h
  | cons member rest ih =>
    obtain ⟨first, v⟩ := member
    rw [List.map_cons, List.nodup_cons] at nodup
    rcases List.mem_cons.mp h with same | later
    · cases same
      rw [get?, if_pos rfl]
    · have other : first ≠ key := by
        rintro rfl
        exact nodup.1 (List.mem_map.mpr ⟨_, later, rfl⟩)
      rw [get?, if_neg other, ih nodup.2 later]

theorem keys_insert (key : String) (value : Value) (members : Members) :
    (insert key value members).map Prod.fst =
      if key ∈ members.map Prod.fst then members.map Prod.fst
      else members.map Prod.fst ++ [key] := by
  induction members with
  | nil => rfl
  | cons member rest ih =>
    obtain ⟨first, v⟩ := member
    rw [insert, List.map_cons]
    by_cases same : first = key
    · rw [if_pos same, if_pos (by simp [same]), List.map_cons]
    · rw [if_neg same, List.map_cons, ih]
      by_cases there : key ∈ rest.map Prod.fst
      · rw [if_pos there, if_pos (List.mem_cons_of_mem _ there)]
      · rw [if_neg there, if_neg (by simp [Ne.symm same, there]), List.cons_append]

theorem mem_insert {key k : String} {value v : Value} {members : Members}
    (h : (k, v) ∈ insert key value members) : v = value ∨ (k, v) ∈ members := by
  induction members with
  | nil =>
    cases List.mem_singleton.mp h
    exact .inl rfl
  | cons member rest ih =>
    obtain ⟨first, w⟩ := member
    rw [insert] at h
    split at h
    · rcases List.mem_cons.mp h with here | later
      · cases here
        exact .inl rfl
      · exact .inr (List.mem_cons_of_mem _ later)
    · rcases List.mem_cons.mp h with here | later
      · exact .inr (here ▸ List.mem_cons_self)
      · exact (ih later).imp_right (List.mem_cons_of_mem _)

end Members

namespace Value

/-! ## Distinct keys -/

/-- No object that a path of keys can lead to has a key twice. What lies inside of arrays is of no
account to paths, and merging does not look at it. -/
inductive Distinct : Value → Prop
  | leaf {value : Value} : value.isObject = false → Distinct value
  | node {members : Members} : (members.map Prod.fst).Nodup →
      (∀ key value, (key, value) ∈ members → Distinct value) → Distinct (object members)

theorem Distinct.nodup {members : Members} (h : (object members).Distinct) :
    (members.map Prod.fst).Nodup := by
  cases h with
  | leaf h => cases h
  | node nodup _ => exact nodup

theorem Distinct.of_mem {members : Members} (h : (object members).Distinct) {key : String}
    {value : Value} (mem : (key, value) ∈ members) : value.Distinct := by
  cases h with
  | leaf h => cases h
  | node _ parts => exact parts key value mem

theorem Distinct.of_get? {overlay value : Value} {key : String} (h : overlay.Distinct)
    (found : overlay.get? key = some value) : value.Distinct := by
  cases overlay with
  | object members => exact h.of_mem (Members.mem_of_get? found)
  | _ => cases found

theorem Distinct.insert {members : Members} (h : (object members).Distinct) (key : String)
    {value : Value} (hvalue : value.Distinct) :
    (object (Members.insert key value members)).Distinct := by
  refine .node ?_ fun k v mem => ?_
  · rw [Members.keys_insert]
    split
    · exact h.nodup
    · next fresh =>
      rw [List.nodup_append]
      refine ⟨h.nodup, by simp, ?_⟩
      rintro k there _ last rfl
      exact fresh (List.mem_singleton.mp last ▸ there)
  · rcases Members.mem_insert mem with rfl | there
    · exact hvalue
    · exact h.of_mem there

/-- Of several values for a key the last one counts, so that each key is left once. -/
theorem distinct_ofList {pairs : List (String × Value)} (h : ∀ pair ∈ pairs, pair.2.Distinct) :
    (object (Members.ofList pairs)).Distinct := by
  unfold Members.ofList
  refine List.foldlRecOn pairs _ (motive := fun members => (object members).Distinct)
    (.node List.nodup_nil (by simp)) fun members distinct pair mem => ?_
  exact distinct.insert pair.1 (h pair mem)

/-! ## Merging, seen from one key -/

theorem merge_leaf (base : Value) {overlay : Value} (h : overlay.isObject = false) :
    base.merge overlay = overlay := by
  cases overlay with
  | object members => cases h
  | _ => rfl

theorem merge_object (base overlay : Members) :
    (object base).merge (object overlay) = object (mergeMembers base overlay) := rfl

theorem merge_over_leaf {base : Value} (h : base.isObject = false) (overlay : Value) :
    base.merge overlay = overlay := by
  cases overlay with
  | object members =>
    cases base with
    | object _ => cases h
    | _ => rfl
  | _ => rfl

/-- A key that is not there counts as null, over which everything is merged as it is. -/
theorem mergeMembers_cons (base : Members) (key : String) (value : Value) (rest : Members) :
    mergeMembers base ((key, value) :: rest) =
      mergeMembers
        (Members.insert key (((Members.get? key base).getD .null).merge value) base) rest := by
  rw [mergeMembers]
  cases Members.get? key base with
  | some existing => rfl
  | none => rw [Option.getD_none, merge_over_leaf rfl]

theorem get?_mergeMembers_of_none {key : String} {base overlay : Members}
    (h : Members.get? key overlay = none) :
    Members.get? key (mergeMembers base overlay) = Members.get? key base := by
  induction overlay generalizing base with
  | nil => rfl
  | cons member rest ih =>
    obtain ⟨first, value⟩ := member
    rw [Members.get?] at h
    split at h
    · cases h
    · next other => rw [mergeMembers_cons, ih h, Members.get?_insert, if_neg other]

theorem get?_mergeMembers_of_some {key : String} {value : Value} {base overlay : Members}
    (nodup : (overlay.map Prod.fst).Nodup) (h : Members.get? key overlay = some value) :
    Members.get? key (mergeMembers base overlay) =
      some (((Members.get? key base).getD .null).merge value) := by
  induction overlay generalizing base with
  | nil => cases h
  | cons member rest ih =>
    obtain ⟨first, v⟩ := member
    rw [List.map_cons, List.nodup_cons] at nodup
    rw [mergeMembers_cons]
    rw [Members.get?] at h
    split at h
    · next same =>
      -- The key does not come again, so what is set here stays.
      cases h
      subst same
      rw [get?_mergeMembers_of_none (Members.get?_eq_none_of_not_mem nodup.1),
        Members.get?_insert, if_pos rfl]
    · next other => rw [ih nodup.2 h, Members.get?_insert, if_neg other]

theorem get?_merge_of_none {key : String} {base overlay : Value}
    (isObject : overlay.isObject = true) (h : overlay.get? key = none) :
    (base.merge overlay).get? key = base.get? key := by
  cases overlay with
  | object overlay =>
    cases base with
    | object base => exact get?_mergeMembers_of_none h
    | _ => exact h
  | _ => cases isObject

theorem get?_merge_of_some {key : String} {value base overlay : Value}
    (distinct : overlay.Distinct) (h : overlay.get? key = some value) :
    (base.merge overlay).get? key = some (((base.get? key).getD .null).merge value) := by
  cases overlay with
  | object overlay =>
    cases base with
    | object base => exact get?_mergeMembers_of_some distinct.nodup h
    | _ =>
      have nothing : Value.null.merge value = value := merge_over_leaf rfl value
      exact h.trans (congrArg some nothing.symm)
  | _ => cases h

/-! ## Merging, seen from a path -/

/-- Nothing of the layer is at the path, and what it has on the way is objects, so that what lies
below the layer is seen there. -/
def Passes (overlay : Value) (path : List String) : Prop :=
  overlay.getPath? path = none ∧ ∀ front, front <+: path → front ≠ path →
    ∀ value, overlay.getPath? front = some value → value.isObject = true

theorem getPath?_cons (value : Value) (key : String) (rest : List String) :
    value.getPath? (key :: rest) = (value.get? key).bind (getPath? · rest) := rfl

theorem not_passes_nil (overlay : Value) : ¬ overlay.Passes [] :=
  fun h => by cases h.1

/-- A value that is no object hides everything. -/
theorem not_passes_leaf {overlay : Value} (h : overlay.isObject = false) (path : List String) :
    ¬ overlay.Passes path := by
  rintro ⟨none, objects⟩
  cases path with
  | nil => cases none
  | cons key rest =>
    have isObject := objects [] List.nil_prefix (by simp) overlay rfl
    rw [h] at isObject
    cases isObject

theorem passes_cons_iff {overlay : Value} (isObject : overlay.isObject = true) (key : String)
    (rest : List String) :
    overlay.Passes (key :: rest) ↔ ∀ value, overlay.get? key = some value → value.Passes rest := by
  constructor
  · rintro ⟨none, objects⟩ value found
    have below (path : List String) : overlay.getPath? (key :: path) = value.getPath? path := by
      rw [getPath?_cons, found, Option.bind_some]
    refine ⟨below rest ▸ none, fun front hfront short v hv => ?_⟩
    exact objects (key :: front) (List.cons_prefix_cons.mpr ⟨rfl, hfront⟩) (by simpa using short) v
      ((below front).trans hv)
  · intro passes
    refine ⟨?_, fun front hfront short v hv => ?_⟩
    · rw [getPath?_cons]
      cases found : overlay.get? key with
      | none => rfl
      | some value => exact (passes value found).1
    · cases front with
      | nil =>
        cases hv
        exact isObject
      | cons k front =>
        obtain ⟨rfl, inside⟩ := List.cons_prefix_cons.mp hfront
        rw [getPath?_cons] at hv
        obtain ⟨value, found, hv⟩ := Option.bind_eq_some_iff.mp hv
        exact (passes value found).2 front inside (by simpa using short) v hv

/-- A value in a merged configuration is one of the upper layer, or one of the lower layer that the
upper one passes. -/
theorem getPath?_merge_iff {base overlay leaf : Value} (distinct : overlay.Distinct)
    (hleaf : leaf.isObject = false) (path : List String) :
    (base.merge overlay).getPath? path = some leaf ↔
      overlay.getPath? path = some leaf ∨
        base.getPath? path = some leaf ∧ overlay.Passes path := by
  -- The layers are taken apart along the path, one key at a time.
  induction path generalizing base overlay with
  | nil =>
    simp only [not_passes_nil, and_false, or_false]
    cases overlay with
    | object overlay =>
      have merged : ∃ members, base.merge (object overlay) = object members := by
        cases base <;> exact ⟨_, rfl⟩
      obtain ⟨members, merged⟩ := merged
      rw [merged]
      constructor <;> intro h <;> cases h <;> cases hleaf
    | _ => rw [merge_leaf base rfl]
  | cons key rest ih =>
    cases isObject : overlay.isObject with
    | false => simp only [merge_leaf base isObject, not_passes_leaf isObject, and_false, or_false]
    | true =>
      rw [passes_cons_iff isObject, getPath?_cons, getPath?_cons, getPath?_cons]
      cases found : overlay.get? key with
      | none =>
        rw [get?_merge_of_none isObject found]
        simp
      | some value =>
        rw [get?_merge_of_some distinct found, Option.bind_some, Option.bind_some,
          ih (distinct.of_get? found)]
        simp only [Option.some.injEq, forall_eq']
        refine or_congr_right (and_congr_left fun passes => ?_)
        cases base.get? key with
        | some existing => rfl
        | none =>
          -- Where the lower layer has no such key, there is nothing to be seen.
          cases rest with
          | nil => exact absurd passes (not_passes_nil value)
          | cons => rfl

/-! ## Merging again -/

/-- Members that are there already, and stay as they are when they are merged, change nothing. -/
theorem mergeMembers_eq_self {base overlay : Members}
    (h : ∀ key value, (key, value) ∈ overlay →
      ∃ existing, Members.get? key base = some existing ∧ existing.merge value = existing) :
    mergeMembers base overlay = base := by
  induction overlay with
  | nil => rfl
  | cons member rest ih =>
    obtain ⟨key, value⟩ := member
    obtain ⟨existing, found, stays⟩ := h key value List.mem_cons_self
    rw [mergeMembers_cons, found, Option.getD_some, stays, Members.insert_of_get? found]
    exact ih fun k v mem => h k v (List.mem_cons_of_mem _ mem)

/-- Merging the same layer again changes nothing. -/
theorem merge_merge {overlay : Value} (distinct : overlay.Distinct) (base : Value) :
    (base.merge overlay).merge overlay = base.merge overlay := by
  induction distinct generalizing base with
  | leaf h => rw [merge_leaf _ h, merge_leaf _ h]
  | @node overlay nodup parts ih =>
    have whole : (object overlay).Distinct := .node nodup parts
    obtain ⟨merged, hmerged⟩ : ∃ members, base.merge (object overlay) = object members := by
      cases base <;> exact ⟨_, rfl⟩
    rw [hmerged, merge_object, mergeMembers_eq_self]
    intro key value mem
    have found : (object overlay).get? key = some value := Members.get?_of_mem nodup mem
    have merged_get : (base.merge (object overlay)).get? key = _ := get?_merge_of_some whole found
    rw [hmerged] at merged_get
    exact ⟨_, merged_get, ih key value mem _⟩

/-- Merging a layer over another is biased to the upper one, at every depth. -/
theorem merge_right_biased {base overlay : Members} (distinct : (object overlay).Distinct) :
    let merged := (object base).merge (object overlay)
    (∀ path leaf, leaf.isObject = false → (object overlay).getPath? path = some leaf →
      merged.getPath? path = some leaf) ∧
    (∀ path leaf, leaf.isObject = false → (object base).getPath? path = some leaf →
      (object overlay).getPath? path = none →
      (∀ front, front <+: path → front ≠ path → ∀ value,
        (object overlay).getPath? front = some value → value.isObject = true) →
      merged.getPath? path = some leaf) ∧
    (∀ path leaf, leaf.isObject = false → merged.getPath? path = some leaf →
      (object overlay).getPath? path = some leaf ∨
        (object base).getPath? path = some leaf ∧ (object overlay).getPath? path = none ∧
          ∀ front, front <+: path → front ≠ path → ∀ value,
            (object overlay).getPath? front = some value → value.isObject = true) ∧
    merged.merge (object overlay) = merged ∧
    (object base).merge (object []) = object base := by
  refine ⟨fun path leaf hleaf above => ?_, fun path leaf hleaf below none objects => ?_,
    fun path leaf hleaf h => ?_, merge_merge distinct _, rfl⟩
  · exact (getPath?_merge_iff distinct hleaf path).mpr (.inl above)
  · exact (getPath?_merge_iff distinct hleaf path).mpr (.inr ⟨below, none, objects⟩)
  · exact (getPath?_merge_iff distinct hleaf path).mp h

/-- A file that sets one flag leaves the other flags as they were. -/
theorem merge_right_biased_flag :
    let base : Members :=
      [("flags", .object [("low_s", .bool false), ("p2sh", .bool true)]), ("verbose", .bool false)]
    let overlay : Members := [("flags", .object [("low_s", .bool true)])]
    let merged := (object base).merge (object overlay)
    merged.getPath? ["flags", "low_s"] = some (.bool true) ∧
      merged.getPath? ["flags", "p2sh"] = some (.bool true) ∧
      merged.getPath? ["flags", "low_s"] ≠ some (.bool false) ∧
      merged.merge (object overlay) = merged := by
  intro base overlay merged
  have flag : (object [("low_s", .bool true)]).Distinct := by
    show (object (Members.ofList [("low_s", .bool true)])).Distinct
    exact distinct_ofList (List.forall_mem_singleton.mpr (.leaf rfl))
  have distinct : (object overlay).Distinct := by
    show (object (Members.ofList [("flags", .object [("low_s", .bool true)])])).Distinct
    exact distinct_ofList (List.forall_mem_singleton.mpr flag)
  obtain ⟨above, below, only, again, -⟩ := @merge_right_biased base overlay distinct
  refine ⟨above _ _ rfl rfl, below _ _ rfl rfl rfl fun front hfront short value hv => ?_, ?_, again⟩
  · simp only [List.prefix_cons_iff, List.prefix_nil] at hfront
    obtain rfl | ⟨_, rfl, rfl | ⟨_, rfl, rfl⟩⟩ := hfront
    · cases hv
      rfl
    · cases hv
      rfl
    · exact absurd rfl short
  · intro h
    obtain h | ⟨-, h, -⟩ := only _ _ rfl h <;> cases h

end Value

/-! ## Values that are read -/

theorem forall_of_mapM {α β : Type} {f : α → Option β} {P : β → Prop}
    (keeps : ∀ a b, f a = some b → P b) {as : List α} {bs : List β} (h : as.mapM f = some bs) :
    ∀ b ∈ bs, P b := by
  induction as generalizing bs with
  | nil =>
    cases h
    simp
  | cons a as ih =>
    rw [List.mapM_cons] at h
    obtain ⟨b, hb, h⟩ := Option.bind_eq_some_iff.mp h
    obtain ⟨rest, hrest, h⟩ := Option.bind_eq_some_iff.mp h
    cases h
    exact List.forall_mem_cons.mpr ⟨keeps a b hb, ih hrest⟩

theorem Numeral.isObject_of_toValue? {n : Numeral} {value : Value} (h : n.toValue? = some value) :
    value.isObject = false := by
  cases n with
  | integer =>
    cases h
    rfl
  | decimal =>
    obtain ⟨x, -, rfl⟩ := Option.map_eq_some_iff.mp h
    rfl

theorem Tree.distinct_of_toValue? {depth : Nat} {tree : Tree} {value : Value}
    (h : tree.toValue? depth = some value) : value.Distinct := by
  -- Only an object within the depth has members, and those are collected by `Members.ofList`.
  fun_induction toValue? depth tree generalizing value with
  | case1 | case2 =>
    cases h
    exact .leaf rfl
  | case3 => exact .leaf (Numeral.isObject_of_toValue? h)
  | case4 =>
    obtain ⟨s, -, rfl⟩ := Option.map_eq_some_iff.mp h
    exact .leaf rfl
  | case5 | case6 => cases h
  | case7 =>
    obtain ⟨items, -, h⟩ := Option.bind_eq_some_iff.mp h
    cases h
    exact .leaf rfl
  | case8 depth trees ih =>
    obtain ⟨members, hmembers, h⟩ := Option.bind_eq_some_iff.mp h
    cases h
    refine Value.distinct_ofList (forall_of_mapM (fun tree member hmember => ?_) hmembers)
    obtain ⟨key, -, hmember⟩ := Option.bind_eq_some_iff.mp hmember
    obtain ⟨v, hv, hmember⟩ := Option.bind_eq_some_iff.mp hmember
    cases hmember
    exact ih tree.2 hv

/-- What is read from a text has no key twice, since of several values for a key the last one
counts. -/
theorem Value.distinct_of_parse? {text : String} {value : Value} (h : parse? text = some value) :
    value.Distinct := by
  obtain ⟨tree, -, h⟩ := Option.bind_eq_some_iff.mp h
  exact Tree.distinct_of_toValue? h

end Json

/-! ## Stored configurations -/

namespace ConfigStore

open Json

theorem distinct_environmentLayer (store : ConfigStore) (name : String)
    (environment : List (String × String)) :
    (store.environmentLayer name environment).Distinct := by
  refine Value.distinct_ofList fun pair mem => ?_
  obtain ⟨⟨key, text⟩, -, h⟩ := List.mem_filterMap.mp mem
  obtain ⟨field, -, rfl⟩ := Option.map_eq_some_iff.mp h
  show (variableValue text).Distinct
  unfold variableValue
  cases read : Value.parse? text with
  | some value => exact Value.distinct_of_parse? read
  | none => exact .leaf rfl

/-- Where the values of a configuration come from: the environment, else the file, else the
default. A layer that has something at a path, or a value that is no object on the way to it, hides
the layers below it there. -/
theorem layered_with_file {store : ConfigStore} {default layer : Value} {name text : String}
    {environment : List (String × String)}
    (file : store.directory.text? (fileName name) = some text)
    (read : Value.parse? text = some layer) :
    let above := store.environmentLayer name environment
    ∃ value, store.layered default name environment = .ok value ∧
      ∀ path leaf, leaf.isObject = false → (value.getPath? path = some leaf ↔
        above.getPath? path = some leaf ∨ (layer.getPath? path = some leaf ∨
          default.getPath? path = some leaf ∧ layer.Passes path) ∧ above.Passes path) := by
  intro above
  refine ⟨(default.merge layer).merge above, ?_, fun path leaf hleaf => ?_⟩
  · unfold layered
    rw [file]
    dsimp only
    rw [read]
    rfl
  · rw [Value.getPath?_merge_iff (distinct_environmentLayer store name environment) hleaf,
      Value.getPath?_merge_iff (Value.distinct_of_parse? read) hleaf]

end ConfigStore

end CoinScript
