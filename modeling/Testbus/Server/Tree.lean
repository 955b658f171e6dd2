import Testbus.Server.State

namespace Testbus.Server

open Lib

/-- A name without slashes. -/
def Plain (name : CString) : Prop := name ≠ [] ∧ slash ∉ name

instance (name : CString) : Decidable (Plain name) :=
  inferInstanceAs (Decidable (name ≠ [] ∧ slash ∉ name))

def pathBelow (names : List CString) : CString := names.flatMap fun name => slash :: name

/-- The path of the object at the end of a way from the root. -/
def pathOf (names : List CString) : CString := rootPath ++ pathBelow names

section Names

variable {names : List CString} {name : CString}

theorem childPath_pathOf (names : List CString) (name : CString) :
    childPath (pathOf names) name = pathOf (names ++ [name]) := by
  simp [childPath, pathOf, pathBelow]

theorem strtok_append (first second : CString) : strtok (first ++ slash :: second) = strtok first ++ strtok second := by
  simp only [strtok, List.splitOn_eq_splitOnP]
  rw [List.splitOnP_append_cons _ _ (by simp), List.filter_append]

theorem strtok_slash (path : CString) : strtok (slash :: path) = strtok path := strtok_append [] path

theorem strtok_plain (plain : Plain name) : strtok name = [name] := by
  have whole : name.splitOn slash = [name] := by
    rw [List.splitOn_eq_splitOnP]
    refine List.splitOnP_eq_singleton fun c member => ?_
    simpa using fun (same : c = slash) => plain.2 (same ▸ member)
  simp [strtok, whole, plain.1]

theorem strtok_pathBelow (plain : ∀ name ∈ names, Plain name) : strtok (pathBelow names) = names := by
  induction names with
  | nil => decide
  | cons name rest ih =>
    have front : pathBelow (name :: rest) = slash :: (name ++ pathBelow rest) := by
      simp [pathBelow]
    have own := strtok_plain (plain name (by simp))
    have later := ih fun other member => plain other (by simp [member])
    rw [front, strtok_slash]
    cases rest with
    | nil => simpa [pathBelow] using own
    | cons next rest =>
      have below : pathBelow (next :: rest) = slash :: (next ++ pathBelow rest) := by
        simp [pathBelow]
      rw [below, strtok_slash] at later
      rw [below, strtok_append, own, later]
      rfl

theorem strtok_dropWhile (path : CString) : strtok (path.dropWhile fun c => c = slash) = strtok path := by
  induction path with
  | nil => rfl
  | cons c rest ih =>
    rw [List.dropWhile_cons]
    split
    · rename_i same
      obtain rfl := of_decide_eq_true same
      rw [ih, strtok_slash]
    · rfl

theorem relativePath_append (begins : rest = [] ∨ ∃ more, rest = slash :: more) :
    (relativePath root (root ++ rest)).map strtok = some (strtok rest) := by
  have front : root.isPrefixOf (root ++ rest) = true := List.isPrefixOf_iff_prefix.mpr (List.prefix_append _ _)
  rw [relativePath, if_pos front, List.drop_left]
  rcases begins with rfl | ⟨more, rfl⟩
  · rfl
  · simp only [if_true, Option.map_some]
    rw [strtok_dropWhile, strtok_slash]

theorem lookupNames_below (begins : rest = [] ∨ ∃ more, rest = slash :: more) :
    lookupNames (rootPath ++ rest) = some (strtok rest) := by
  have absolute : lookupNames (rootPath ++ rest) = (relativePath rootPath (rootPath ++ rest)).map strtok := by
    have front : rootPath ++ rest = slash :: (rootPath.tail ++ rest) := rfl
    simp [lookupNames, front]
  rw [absolute, relativePath_append begins]

theorem pathBelow_begins (names : List CString) : pathBelow names = [] ∨ ∃ more, pathBelow names = slash :: more := by
  cases names with
  | nil => exact Or.inl rfl
  | cons name rest => exact Or.inr ⟨name ++ pathBelow rest, by simp [pathBelow]⟩

theorem lookupNames_pathOf (plain : ∀ name ∈ names, Plain name) : lookupNames (pathOf names) = some names := by
  rw [pathOf, lookupNames_below (pathBelow_begins names), strtok_pathBelow plain]

/-- A slash at the end names nothing more. -/
theorem lookupNames_slash (plain : ∀ name ∈ names, Plain name) :
    lookupNames (childPath (pathOf names) []) = some names := by
  have whole : childPath (pathOf names) [] = rootPath ++ (pathBelow names ++ [slash]) := by
    simp [childPath, pathOf]
  have begins : pathBelow names ++ [slash] = [] ∨ ∃ more, pathBelow names ++ [slash] = slash :: more := by
    rcases pathBelow_begins names with empty | ⟨more, front⟩
    · exact Or.inr ⟨[], by rw [empty]; rfl⟩
    · exact Or.inr ⟨more ++ [slash], by rw [front]; rfl⟩
  have ends : strtok [] = [] := by decide
  rw [whole, lookupNames_below begins, strtok_append, strtok_pathBelow plain, ends, List.append_nil]

/-- The way to an object is in its path. -/
theorem pathOf_inj (plain : ∀ name ∈ names, Plain name)
    (plain' : ∀ name ∈ others, Plain name) (same : pathOf names = pathOf others) : names = others := by
  have ways := lookupNames_pathOf plain
  rw [same, lookupNames_pathOf plain'] at ways
  exact (Option.some.inj ways).symm

/-- What lies below an object has a path that goes on with a slash. -/
theorem prefix_pathOf (plain : ∀ name ∈ names, Plain name) (plain' : ∀ name ∈ others, Plain name) :
    childPath (pathOf names) [] <+: pathOf others ↔ names <+: others ∧ names ≠ others := by
  constructor
  · rintro ⟨rest, whole⟩
    have ways := strtok_pathBelow plain'
    have below : pathBelow others = pathBelow names ++ slash :: rest := by
      have whole : rootPath ++ (pathBelow names ++ slash :: rest) = rootPath ++ pathBelow others := by
        simpa [childPath, pathOf] using whole
      exact (List.append_cancel_left whole).symm
    have split := strtok_append (pathBelow names) rest
    rw [← below, ways, strtok_pathBelow plain] at split
    refine ⟨⟨_, split.symm⟩, ?_⟩
    rintro rfl
    have lengths := congrArg List.length below
    simp at lengths
  · rintro ⟨⟨rest, rfl⟩, longer⟩
    cases rest with
    | nil => simp at longer
    | cons name rest =>
      refine ⟨name ++ pathBelow rest, ?_⟩
      simp [childPath, pathOf, pathBelow]

end Names

/-- The objects form a tree, and none has a long path. -/
structure Tree (objects : List Object) : Prop where
  root : ⟨rootPath, none⟩ ∈ objects
  named : ∀ object ∈ objects, ∃ names, (∀ name ∈ names, Plain name) ∧ object.path = pathOf names
  closed : ∀ object ∈ objects, ∀ names name, (∀ other ∈ names ++ [name], Plain other) →
    object.path = pathOf (names ++ [name]) → ∃ above ∈ objects, above.path = pathOf names
  nodup : (objects.map Object.path).Nodup
  short : ∀ object ∈ objects, object.path.length < 255

namespace Tree

variable {objects : List Object} {object : Object} {names : List CString} {name path : CString}

theorem find_path (tree : Tree objects) (member : object ∈ objects) :
    (objects.find? fun other => other.path = object.path) = some object := by
  cases found : objects.find? fun other => other.path = object.path with
  | none =>
    have none_ := List.find?_eq_none.mp found object member
    simp at none_
  | some other =>
    have same : other.path = object.path := by simpa using List.find?_some found
    have one := List.inj_on_of_nodup_map tree.nodup (List.mem_of_find?_eq_some found) member same
    rw [one]

theorem find_mem (found : objects.find? test = some object) : object ∈ objects := List.mem_of_find?_eq_some found

theorem lookupFrom_some (member : found ∈ objects) (looked : lookupFrom objects found names = some object) :
    object ∈ objects ∧ object.path = found.path ++ pathBelow names := by
  induction names generalizing found with
  | nil =>
    cases looked
    simpa [pathBelow] using member
  | cons name rest ih =>
    rw [lookupFrom] at looked
    cases child : getChild objects found.path name with
    | none => simp [child] at looked
    | some next =>
      rw [child] at looked
      have there : next.path = childPath found.path name := by
        simpa using List.find?_some child
      obtain ⟨member, path⟩ := ih (find_mem child) looked
      refine ⟨member, ?_⟩
      rw [path, there]
      simp [childPath, pathBelow]

theorem lookup_mem (looked : objectLookup objects path = some object) : object ∈ objects := by
  obtain ⟨names, _, rest⟩ := Option.bind_eq_some_iff.mp looked
  obtain ⟨root, start, looked⟩ := Option.bind_eq_some_iff.mp rest
  exact (lookupFrom_some (find_mem start) looked).1

theorem lookup_pathOf (tree : Tree objects) (plain : ∀ name ∈ names, Plain name) :
    objectLookup objects (pathOf names) = lookupFrom objects ⟨rootPath, none⟩ names := by
  have root := tree.find_path tree.root
  simp [objectLookup, lookupNames_pathOf plain, root]

theorem above (tree : Tree objects) (front rest : List CString) (plain : ∀ name ∈ front ++ rest, Plain name)
    (there : ∃ object ∈ objects, object.path = pathOf (front ++ rest)) :
    ∃ object ∈ objects, object.path = pathOf front := by
  induction rest using List.reverseRecOn with
  | nil => simpa using there
  | append_singleton rest last ih =>
    obtain ⟨object, present, path⟩ := there
    rw [← List.append_assoc] at plain path
    refine ih (fun name member => plain name (List.mem_append_left _ member)) ?_
    exact tree.closed object present _ last plain path

theorem getChild_path (tree : Tree objects) (member : object ∈ objects)
    (path : object.path = pathOf (names ++ [name])) : getChild objects (pathOf names) name = some object := by
  have found := tree.find_path member
  rw [getChild, childPath_pathOf, ← path]
  exact found

theorem lookupFrom_path (tree : Tree objects) (member : object ∈ objects) (front rest : List CString)
    (plain : ∀ name ∈ front ++ rest, Plain name) (path : object.path = pathOf (front ++ rest))
    (start : found ∈ objects) (here : found.path = pathOf front) : lookupFrom objects found rest = some object := by
  induction rest generalizing front found with
  | nil =>
    rw [List.append_nil] at path
    have same := List.inj_on_of_nodup_map tree.nodup start member (here.trans path.symm)
    rw [lookupFrom, same]
  | cons name rest ih =>
    rw [List.append_cons] at plain path
    obtain ⟨next, present, there⟩ := tree.above (front ++ [name]) rest plain ⟨object, member, path⟩
    rw [lookupFrom, here, tree.getChild_path present there]
    exact ih (front ++ [name]) plain path present there

theorem lookup_path (tree : Tree objects) (member : object ∈ objects) :
    objectLookup objects object.path = some object := by
  obtain ⟨names, plain, path⟩ := tree.named object member
  rw [path, tree.lookup_pathOf plain]
  exact tree.lookupFrom_path member [] names plain path tree.root (by simp [pathOf, pathBelow])

/-- Where the parent of a new object is, only the object itself is missing. -/
theorem createFrom_below (tree : Tree objects) (handle : Addr) (front rest : List CString)
    (plain : ∀ name ∈ front ++ rest, Plain name)
    (there : ∃ object ∈ objects, object.path = pathOf (front ++ rest)) (start : found ∈ objects) (here : found.path = pathOf front) (name : CString) :
    createFrom objects found handle (rest ++ [name]) =
      match getChild objects (pathOf (front ++ rest)) name with
      | some child => .ok (objects, child)
      | none =>
        if (pathOf (front ++ rest)).length + name.length + 2 ≥ 256 then .error .fatal
        else .ok (objects ++ [⟨pathOf (front ++ rest ++ [name]), some handle⟩],
          ⟨pathOf (front ++ rest ++ [name]), some handle⟩) := by
  induction rest generalizing front found with
  | nil =>
    rw [List.append_nil] at *
    rw [List.nil_append, createFrom, here]
    cases getChild objects (pathOf front) name with
    | some child => rfl
    | none => simp only [childPath_pathOf, createFrom, if_true]
  | cons next rest ih =>
    rw [List.append_cons] at plain there
    obtain ⟨child, present, path⟩ := tree.above (front ++ [next]) rest plain there
    rw [List.cons_append, createFrom, here, tree.getChild_path present path, List.append_cons front next rest]
    exact ih (front ++ [next]) plain there present path

theorem not_found (tree : Tree objects) (unknown : objectLookup objects (pathOf (names ++ [name])) = none) :
    ∀ object ∈ objects, object.path ≠ pathOf (names ++ [name]) := by
  intro object member path
  have found := tree.lookup_path member
  rw [path, unknown] at found
  cases found

theorem objectCreate_last (tree : Tree objects) (plain : ∀ other ∈ names ++ [last], Plain other)
    (there : ∃ object ∈ objects, object.path = pathOf names) (handle : Addr)
    (fresh : ∀ other ∈ objects, other.path ≠ pathOf (names ++ [last])) :
    objectCreate objects (pathOf (names ++ [last])) handle =
      if (pathOf names).length + last.length + 2 ≥ 256 then .error .fatal
      else .ok (objects ++ [⟨pathOf (names ++ [last]), some handle⟩], ⟨pathOf (names ++ [last]), some handle⟩) := by
  have plainNames : ∀ other ∈ names, Plain other := fun other member => plain other (by simp [member])
  have unknown : objectLookup objects (pathOf (names ++ [last])) = none := by
    rw [tree.lookup_pathOf plain]
    cases looked : lookupFrom objects ⟨rootPath, none⟩ (names ++ [last]) with
    | none => rfl
    | some other =>
      obtain ⟨member, path⟩ := lookupFrom_some tree.root looked
      exact absurd path (fresh other member)
  have made := tree.createFrom_below handle [] names plainNames there tree.root (by simp [pathOf, pathBelow]) last
  have missing : getChild objects (pathOf names) last = none := by
    refine List.find?_eq_none.mpr fun other member => ?_
    simpa [childPath_pathOf] using fresh other member
  simp only [List.nil_append, missing] at made
  simp only [objectCreate, unknown, lookupNames_pathOf plain, tree.find_path tree.root]
  exact made

/-- An object that was created is a new one at the end of a short path. -/
theorem objectCreate_some (tree : Tree objects) (plain : ∀ other ∈ names ++ [name], Plain other)
    (there : ∃ object ∈ objects, object.path = pathOf names) (fresh : ∀ object ∈ objects, object.handle ≠ some handle) (created : objectCreate objects ((childPath (pathOf names) name).take 255) handle = .ok (objects', object)) :
    object = ⟨pathOf (names ++ [name]), some handle⟩ ∧ objects' = objects ++ [object] ∧
      (pathOf (names ++ [name])).length < 255 ∧ ∀ other ∈ objects, other.path ≠ pathOf (names ++ [name]) := by
  have plainNames : ∀ other ∈ names, Plain other := fun other member => plain other (by simp [member])
  obtain ⟨above, present, path⟩ := there
  have unknown : objectLookup objects ((childPath (pathOf names) name).take 255) = none := by
    cases looked : objectLookup objects ((childPath (pathOf names) name).take 255) with
    | none => rfl
    | some other =>
      simp only [objectCreate, looked] at created
      split at created
      · exact absurd ‹_› (fresh other (lookup_mem looked))
      · cases created
  have root := tree.find_path tree.root
  have shortAbove : (pathOf names).length < 255 := path ▸ tree.short above present
  have create : ∀ last, Plain last → (childPath (pathOf names) name).take 255 = pathOf (names ++ [last]) →
      (if (pathOf names).length + last.length + 2 ≥ 256 then Except.error Fault.fatal
        else .ok (objects ++ [⟨pathOf (names ++ [last]), some handle⟩],
          ⟨pathOf (names ++ [last]), some handle⟩)) = .ok (objects', object) := by
    intro last plainLast taken
    have plain' : ∀ other ∈ names ++ [last], Plain other := by
      intro other member
      rcases List.mem_append.mp member with old | new
      · exact plainNames other old
      · exact List.mem_singleton.mp new ▸ plainLast
    rw [taken] at created unknown
    rwa [tree.objectCreate_last plain' ⟨above, present, path⟩ handle (tree.not_found unknown)] at created
  have long : (childPath (pathOf names) name).length = (pathOf names).length + name.length + 1 := by
    simp [childPath]
    omega
  by_cases fits : (childPath (pathOf names) name).length < 255
  · have whole : (childPath (pathOf names) name).take 255 = pathOf (names ++ [name]) := by
      rw [List.take_of_length_le (by omega), childPath_pathOf]
    have done := create name (plain name (by simp)) whole
    rw [if_neg (by omega)] at done
    cases done
    rw [whole] at unknown
    exact ⟨rfl, rfl, by rw [← childPath_pathOf]; exact fits, tree.not_found unknown⟩
  · exfalso
    by_cases cut : (pathOf names).length = 254
    · have whole : (childPath (pathOf names) name).take 255 = childPath (pathOf names) [] := by
        simp [childPath, List.take_append, cut]
      have way : objectLookup objects (childPath (pathOf names) []) = some above := by
        simp only [objectLookup, lookupNames_slash plainNames]
        have found := tree.lookup_path present
        rw [path, tree.lookup_pathOf plainNames] at found
        simpa [root] using found
      rw [whole, way] at unknown
      cases unknown
    · have whole : (childPath (pathOf names) name).take 255 =
          pathOf (names ++ [name.take (254 - (pathOf names).length)]) := by
        rw [← childPath_pathOf]
        simp only [childPath, List.take_append]
        rw [List.take_of_length_le (by omega)]
        have split : 255 - (pathOf names).length = 254 - (pathOf names).length + 1 := by omega
        rw [split, List.take_succ_cons]
      have done := create (name.take (254 - (pathOf names).length)) ?_ whole
      · rw [if_pos] at done
        · cases done
        · rw [List.length_take]
          omega
      · have own := plain name (by simp)
        refine ⟨?_, fun member => own.2 (List.mem_of_mem_take member)⟩
        intro empty
        have lengths := congrArg List.length empty
        have nonempty := List.length_pos_iff.mpr own.1
        rw [List.length_take, List.length_nil] at lengths
        omega

theorem createFrom_error (failed : createFrom objects found handle names = .error fault) : fault = .fatal := by
  induction names generalizing objects found with
  | nil => cases failed
  | cons name rest ih =>
    rw [createFrom] at failed
    cases child : getChild objects found.path name with
    | some next =>
      rw [child] at failed
      exact ih failed
    | none =>
      simp only [child] at failed
      split at failed
      · exact (Except.error.inj failed).symm
      · exact ih failed

theorem objectCreate_error (failed : objectCreate objects path handle = .error fault) : fault = .fatal := by
  unfold objectCreate at failed
  split at failed
  · split at failed
    · cases failed
    · exact (Except.error.inj failed).symm
  · split at failed
    · exact createFrom_error failed
    · exact (Except.error.inj failed).symm

theorem objectCreate_short (tree : Tree objects) (plain : ∀ other ∈ names ++ [name], Plain other)
    (there : ∃ object ∈ objects, object.path = pathOf names) (handle : Addr)
    (fits : (pathOf (names ++ [name])).length < 255) (fresh : ∀ other ∈ objects, other.path ≠ pathOf (names ++ [name])) :
    objectCreate objects ((childPath (pathOf names) name).take 255) handle =
      .ok (objects ++ [⟨pathOf (names ++ [name]), some handle⟩], ⟨pathOf (names ++ [name]), some handle⟩) := by
  have long : (pathOf (names ++ [name])).length = (pathOf names).length + name.length + 1 := by
    rw [← childPath_pathOf, childPath, List.length_append, List.length_cons]
    omega
  rw [childPath_pathOf, List.take_of_length_le (by omega),
    tree.objectCreate_last plain there handle fresh, if_neg (by omega)]

theorem append (tree : Tree objects) (plain : ∀ other ∈ names ++ [name], Plain other)
    (there : ∃ object ∈ objects, object.path = pathOf names)
    (path : object.path = pathOf (names ++ [name])) (fits : object.path.length < 255)
    (fresh : ∀ other ∈ objects, other.path ≠ pathOf (names ++ [name])) : Tree (objects ++ [object]) where
  root := List.mem_append_left _ tree.root
  named := by
    intro other member
    rcases List.mem_append.mp member with old | new
    · exact tree.named other old
    · exact ⟨names ++ [name], plain, List.mem_singleton.mp new ▸ path⟩
  closed := by
    intro other member names' name' plain' path'
    rcases List.mem_append.mp member with old | new
    · obtain ⟨above, present, at_⟩ := tree.closed other old names' name' plain' path'
      exact ⟨above, List.mem_append_left _ present, at_⟩
    · obtain rfl := List.mem_singleton.mp new
      have same := pathOf_inj plain plain' (path.symm.trans path')
      obtain rfl := (List.append_inj' same rfl).1
      obtain ⟨above, present, at_⟩ := there
      exact ⟨above, List.mem_append_left _ present, at_⟩
  nodup := by
    rw [List.map_append, List.map_singleton]
    refine List.nodup_append.mpr ⟨tree.nodup, List.nodup_singleton _, ?_⟩
    intro first member second same
    obtain ⟨other, present, rfl⟩ := List.mem_map.mp member
    rw [List.mem_singleton.mp same, path]
    exact fresh other present
  short := by
    intro other member
    rcases List.mem_append.mp member with old | new
    · exact tree.short other old
    · exact List.mem_singleton.mp new ▸ fits

theorem filter (tree : Tree objects) (member : object ∈ objects) (other : object.path ≠ rootPath)
    {gone : Object → Bool} (what : ∀ other, gone other = true ↔
      other = object ∨ childPath object.path [] <+: other.path) :
    Tree (objects.filter fun other => !gone other) := by
  obtain ⟨names, plain, path⟩ := tree.named object member
  rw [path] at what other
  exact {
    root := by
      refine List.mem_filter.mpr ⟨tree.root, ?_⟩
      rw [Bool.not_eq_true', ← Bool.not_eq_true, what]
      rintro (same | below)
      · apply other
        rw [← path, ← same]
      · have root : rootPath = pathOf [] := by simp [pathOf, pathBelow]
        change _ <+: rootPath at below
        rw [root, prefix_pathOf plain (by simp)] at below
        exact below.2 (List.prefix_nil.mp below.1)
    named := fun other member => tree.named other (List.mem_filter.mp member).1
    closed := by
      intro x kept front last plain' at_
      obtain ⟨present, stays⟩ := List.mem_filter.mp kept
      obtain ⟨above, here, aboveAt⟩ := tree.closed x present front last plain' at_
      have plainFront : ∀ name ∈ front, Plain name := fun name member =>
        plain' name (List.mem_append_left _ member)
      refine ⟨above, List.mem_filter.mpr ⟨here, ?_⟩, aboveAt⟩
      rw [Bool.not_eq_true', ← Bool.not_eq_true, what] at stays ⊢
      rintro (same | below)
      · apply stays
        rw [same, path] at aboveAt
        obtain rfl := pathOf_inj plain plainFront aboveAt
        rw [at_, prefix_pathOf plain plain']
        exact Or.inr ⟨List.prefix_append _ _, by simp⟩
      · apply stays
        rw [aboveAt, prefix_pathOf plain plainFront] at below
        rw [at_, prefix_pathOf plain plain']
        refine Or.inr ⟨below.1.trans (List.prefix_append _ _), ?_⟩
        rintro rfl
        have lengths := below.1.length_le
        simp at lengths
    nodup := tree.nodup.sublist (List.filter_sublist.map _)
    short := fun other member => tree.short other (List.mem_filter.mp member).1 }

end Tree

theorem ascii_digits (digits : ∀ c ∈ first, c.isDigit = true)
    (digits' : ∀ c ∈ second, c.isDigit = true) (same : ascii first = ascii second) : first = second := by
  induction first generalizing second with
  | nil => cases second with
    | nil => rfl
    | cons c rest => simp [ascii] at same
  | cons c rest ih =>
    cases second with
    | nil => simp [ascii] at same
    | cons d more =>
      simp only [ascii, List.map_cons, List.cons.injEq] at same
      have bound := digit_range (digits c (by simp))
      have bound' := digit_range (digits' d (by simp))
      have bytes := congrArg UInt8.toNat same.1
      simp only [UInt8.toNat_ofNat'] at bytes
      have equal : c.toNat = d.toNat := by omega
      have rest := ih (fun x member => digits x (by simp [member])) (fun x member => digits' x (by simp [member])) same.2
      rw [rest, Char.ext (UInt32.toNat_inj.mp equal)]

theorem decimal_inj (same : decimal first = decimal second) : first = second := by
  have digits : ∀ id : UInt32, ∀ c ∈ Nat.toDigits 10 id.toNat, c.isDigit = true :=
    fun id c member => Nat.isDigit_of_mem_toDigits (by decide) (by decide) member
  have chars := ascii_digits (digits first) (digits second) same
  apply UInt32.toNat_inj.mp
  rw [← Nat.ofDigitChars_ten_toDigits (n := first.toNat), chars, Nat.ofDigitChars_ten_toDigits]

theorem objectName_plain (kind : Kind) (id : UInt32) : Plain (kind.objectName id) := by
  constructor
  · intro empty
    have none_ := (List.append_eq_nil_iff.mp empty).2
    simp only [decimal, ascii, List.map_eq_nil_iff] at none_
    exact Nat.toDigits_ne_nil none_
  · intro member
    rcases List.mem_append.mp member with front | digits
    · cases kind <;> revert front <;> decide
    · obtain ⟨c, inside, same⟩ := List.mem_map.mp digits
      have bound := digit_range (Nat.isDigit_of_mem_toDigits (by decide) (by decide) inside)
      have byte := congrArg UInt8.toNat same
      simp only [UInt8.toNat_ofNat', slash] at byte
      change _ = 47 at byte
      omega

/-- Two containers of a parent have two names, unless their ids are the same. -/
theorem objectName_inj {kind kind' : Kind} {id id' : UInt32} (other : kind ≠ .globalContext)
    (other' : kind' ≠ .globalContext) (same : kind.objectName id = kind'.objectName id') : kind = kind' ∧ id = id' := by
  have kinds : kind = kind' := by
    have first := congrArg List.head? same
    revert first
    cases kind <;> cases kind' <;> simp_all [Kind.objectName, Kind.dbusNamePrefix, ascii]
  subst kinds
  exact ⟨rfl, decimal_inj (List.append_cancel_left same)⟩

end Testbus.Server
