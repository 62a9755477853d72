import Mathlib.Data.List.Basic
/-! # Role names: which are valid, and how they form a tree -/
namespace Clusterd.Common
namespace Roles

def isStrictSubroleOf (left right : String) : Bool :=
  decide (right.toList.length < left.toList.length) && left.toList[right.toList.length]? == some '/' &&
    right.toList.isPrefixOf left.toList

def ancestorsFrom (role : List Char) : Nat → List String
  | 0 => []
  | i + 1 =>
    if role[i]? = some '/' then String.ofList (role.take i) :: ancestorsFrom role i else ancestorsFrom role i

def ancestors (role : String) : List String := ancestorsFrom role.toList role.toList.length

def invalidCharacters : List Char := ['\x09', '\x0a', '\x0b', '\x0c', '\x0d', '\x20', '\x7f']

/-- The checks of `roles::validate` on one component of the path. -/
def validateComponent (role : String) (component : List Char) : Option String :=
  if component = ['.'] then some ("Role '" ++ role ++ "' cannot include '.' as a component")
  else if component = ['.', '.'] then some ("Role '" ++ role ++ "' cannot include '..' as a component")
  else if component = ['*'] then some ("Role '" ++ role ++ "' cannot include '*' as a component")
  else if component.head? = some '-' then
    some ("Role component '" ++ String.ofList component ++ "' is invalid because it starts with a dash")
  else if component.any (invalidCharacters.contains ·) then
    some ("Role component '" ++ String.ofList component ++ "' is invalid because it contains backspace or whitespace")
  else none

/-- `roles::validate`: `none`, or the error. -/
def validate (role : String) : Option String :=
  let components := (role.toList.splitOn '/').filter (!·.isEmpty)
  if role = "*" then none
  else if role.toList.head? = some '/' then some ("Role '" ++ role ++ "' cannot start with a slash")
  else if role.toList.getLast? = some '/' then some ("Role '" ++ role ++ "' cannot end with a slash")
  else if (role.toList.zip role.toList.tail).contains ('/', '/') then
    some ("Role '" ++ role ++ "' cannot contain two adjacent slashes")
  else if components = [] then some "Role names cannot be the empty string"
  else components.findSome? (validateComponent role)

example : ancestors "a/b/c/d" = ["a/b/c", "a/b", "a"] := by decide

/-! ## The hierarchy -/

open List
open String (ofList)

section

variable {left right : String}

theorem isStrictSubroleOf_iff :
    isStrictSubroleOf left right = true ↔ ∃ rest, left.toList = right.toList ++ '/' :: rest := by
  simp only [isStrictSubroleOf, Bool.and_eq_true, decide_eq_true_eq, beq_iff_eq, isPrefixOf_iff_prefix]
  constructor
  · rintro ⟨⟨-, hs⟩, rest, hr⟩
    rw [← hr, getElem?_append_right (Nat.le_refl _), Nat.sub_self, ← head?_eq_getElem?] at hs
    obtain ⟨more, rfl⟩ := head?_eq_some_iff.1 hs
    exact ⟨more, hr.symm⟩
  · rintro ⟨_, h⟩
    simp [h]

theorem intercalate_append {a : List (List Char)} (ha : a ≠ []) (c : List Char) (cs : List (List Char)) :
    ['/'].intercalate (a ++ c :: cs) = ['/'].intercalate a ++ '/' :: ['/'].intercalate (c :: cs) := by
  induction a with
  | nil => exact absurd rfl ha
  | cons _ a ih =>
    cases a with
    | nil => simp
    | cons => simp_all

theorem isStrictSubroleOf_iff_components : isStrictSubroleOf left right = true ↔
    ∃ c cs, left.toList.splitOn '/' = right.toList.splitOn '/' ++ c :: cs := by
  rw [isStrictSubroleOf_iff]
  constructor
  · rintro ⟨rest, h⟩
    obtain ⟨c, cs, hc⟩ := exists_cons_of_ne_nil (splitOn_ne_nil '/' rest)
    exact ⟨c, cs, by rw [h, splitOn_append_cons_self, hc]⟩
  · rintro ⟨c, cs, h⟩
    have hj := congrArg ['/'].intercalate h
    rw [intercalate_append (splitOn_ne_nil _ _), intercalate_splitOn, intercalate_splitOn] at hj
    exact ⟨_, hj⟩

theorem isStrictSubroleOf_take {role : List Char} {i n : Nat} (hs : role[i]? = some '/') (hi : i < n) :
    isStrictSubroleOf (ofList (role.take n)) (ofList (role.take i)) = true := by
  obtain ⟨hl, he⟩ := List.getElem?_eq_some_iff.1 ((getElem?_take_of_lt hi).trans hs)
  have ht := take_append_drop i (role.take n)
  rw [drop_eq_getElem_cons hl, he, take_take, Nat.min_eq_left (Nat.le_of_lt hi)] at ht
  exact isStrictSubroleOf_iff.2 ⟨_, by simpa using ht.symm⟩

theorem ancestorsFrom_eq (role : List Char) (n : Nat) : ancestorsFrom role n =
    ((range n).reverse.filter (role[·]? = some '/')).map fun i => ofList (role.take i) := by
  induction n with
  | zero => rfl
  | succ n ih =>
    rw [ancestorsFrom, ih, range_succ, reverse_append]
    split_ifs with h <;> simp [h]

theorem mem_ancestors : right ∈ ancestors left ↔ isStrictSubroleOf left right = true := by
  rw [ancestors, ancestorsFrom_eq]
  simp only [mem_map, mem_filter, mem_reverse, mem_range, decide_eq_true_eq]
  constructor
  · rintro ⟨_, ⟨hi, hs⟩, rfl⟩
    have h := isStrictSubroleOf_take hs hi
    rwa [take_length, String.ofList_toList] at h
  · intro h
    obtain ⟨_, h⟩ := isStrictSubroleOf_iff.1 h
    exact ⟨right.toList.length, by simp [h]⟩

theorem pairwise_ancestors (role : String) : (ancestors role).Pairwise (isStrictSubroleOf · · = true) := by
  rw [ancestors, ancestorsFrom_eq, pairwise_map]
  refine ((pairwise_reverse.2 pairwise_lt_range).filter _).imp_of_mem fun _ hi hlt => ?_
  exact isStrictSubroleOf_take (of_decide_eq_true (mem_filter.1 hi).2) hlt

theorem adjacent_iff {role : List Char} :
    (role.zip role.tail).contains ('/', '/') = true ↔ ∃ i, role[i]? = some '/' ∧ role[i + 1]? = some '/' := by
  simp [mem_iff_getElem?, getElem?_zip_eq_some]

theorem validate_of_subrole (hs : isStrictSubroleOf left right = true) (h : validate left = none) :
    validate right = none := by
  obtain ⟨_, hs⟩ := isStrictSubroleOf_iff.1 hs
  have hat : ∀ {i c}, right.toList[i]? = some c → left.toList[i]? = some c := fun hc => by
    rw [hs, getElem?_append_left (getElem?_eq_some_iff.1 hc).1, hc]
  have hslash : left.toList[right.toList.length]? = some '/' := by simp [hs]
  unfold validate at h ⊢
  simp only [head?_eq_getElem?, getLast?_eq_getElem?] at h ⊢
  split_ifs at h with hstar hhead hlast hadj hnone
  · rw [hstar] at hslash
    exact absurd (mem_of_getElem? hslash) (by decide)
  split_ifs with gstar ghead glast gadj gnone
  · rfl
  · exact absurd (hat ghead) hhead
  · have hlt := (List.getElem?_eq_some_iff.1 glast).1
    refine absurd (adjacent_iff.2 ⟨_, hat glast, ?_⟩) hadj
    rwa [Nat.sub_add_cancel (by omega)]
  · exact hadj (adjacent_iff.2 ((adjacent_iff.1 gadj).imp fun _ h => ⟨hat h.1, hat h.2⟩))
  · -- a text that is not empty and does not begin with a slash has a first component
    cases hr : right.toList with
    | nil =>
      rw [hr] at hslash
      exact absurd hslash hhead
    | cons x xs =>
      obtain ⟨_, _, hx⟩ := exists_cons_of_ne_nil (splitOn_ne_nil '/' xs)
      have hne : x ≠ '/' := by simpa [hr] using ghead
      simp [hr, splitOn_cons_eq_if_modifyHead, hne, hx] at gnone
  · rw [hs, splitOn_append_cons_self, filter_append, findSome?_eq_none_iff] at h
    refine findSome?_eq_none_iff.2 fun c hc => ?_
    have := h c (mem_append_left _ hc)
    unfold validateComponent at this ⊢
    split_ifs at this ⊢
    rfl

end

/-- **The hierarchy of roles is the prefix order on their paths**, and the ancestors of a role are what it is below, the
nearest one first. -/
theorem hierarchy : (∀ left right, (isStrictSubroleOf left right = true ↔
        ∃ c cs, left.toList.splitOn '/' = right.toList.splitOn '/' ++ c :: cs) ∧
      (isStrictSubroleOf left right = true ↔ right ∈ ancestors left)) ∧
    (∀ role, isStrictSubroleOf role role = false) ∧
    (∀ a b c, isStrictSubroleOf a b = true → isStrictSubroleOf b c = true → isStrictSubroleOf a c = true) ∧
    ∀ role, (ancestors role).Pairwise (isStrictSubroleOf · · = true) ∧ (ancestors role).Nodup ∧
      (validate role = none → ∀ ancestor ∈ ancestors role, validate ancestor = none) := by
  have hirr : ∀ role, isStrictSubroleOf role role = false := fun role => by simp [isStrictSubroleOf]
  refine ⟨fun _ _ => ⟨isStrictSubroleOf_iff_components, mem_ancestors.symm⟩, hirr, fun a b c ha hb => ?_, fun role => ?_⟩
  · obtain ⟨_, ha⟩ := isStrictSubroleOf_iff.1 ha
    obtain ⟨_, hb⟩ := isStrictSubroleOf_iff.1 hb
    exact isStrictSubroleOf_iff.2 ⟨_, by rw [ha, hb, append_assoc]; rfl⟩
  · have hp := pairwise_ancestors role
    refine ⟨hp, hp.imp fun h heq => ?_, fun h a ha => validate_of_subrole (mem_ancestors.1 ha) h⟩
    rw [heq, hirr] at h
    cases h

end Roles
end Clusterd.Common
