import Mathlib.Data.List.DropRight
/-!
# Texts and paths

The string and path functions of `stout` that the agent's path handling rests on.  They work letter by letter: `join`
puts one separator between two parts, `dirname` cuts at the last separator that is not a trailing one, and neither looks
at `.` or `..`.
-/
namespace Stout

/-- A `std::string`, letter by letter. -/
abbrev Text := List Char

instance : LawfulBEq Text := inferInstance

/-- `os::PATH_SEPARATOR`. -/
def separator : Char := '/'

namespace Strings

def startsWith (s start : Text) : Bool := start.isPrefixOf s

/-- `strings::remove(from, substring, strings::PREFIX)`. -/
def removePrefix (source substring : Text) : Text :=
  if substring.isPrefixOf source then source.drop substring.length else source

/-- `strings::remove(from, substring, strings::SUFFIX)`. -/
def removeSuffix (source substring : Text) : Text :=
  if substring.isSuffixOf source then source.take (source.length - substring.length) else source

def trim (source : Text) (chars : Text) : Text := (source.dropWhile (· ∈ chars)).rdropWhile (· ∈ chars)

def split (s : Text) (delim : Char) : List Text := s.splitOn delim

/-- As `split`, without the empty tokens. -/
def tokenize (s : Text) (delim : Char) : List Text := (s.splitOn delim).filter (!·.isEmpty)

end Strings

namespace Path

open Strings List

/-- `"file://"`. -/
def uriScheme : Text := ['f', 'i', 'l', 'e', ':', '/', '/']

def fromUri (uri : Text) : Text := removePrefix uri uriScheme

def join (path1 path2 : Text) : Text := removeSuffix path1 [separator] ++ separator :: removePrefix path2 [separator]

/-- `path::join` of a vector. -/
def joinAll : List Text → Text
  | [] => []
  | path :: paths => paths.foldl join path

/-- `Path(path).dirname()`; the constructor of `Path` removes `file://`. -/
def dirname (path : Text) : Text :=
  let value := removePrefix path uriScheme
  if value = [] then ['.']
  else
    -- The trailing separators go first, then the last component.
    let named := value.rdropWhile (· = separator)
    if named = [] then [separator]
    else
      let upTo := named.rdropWhile (· ≠ separator)
      if upTo = [] then ['.']
      else
        let parent := upTo.rdropWhile (· = separator)
        if parent = [] then [separator] else parent

example : [dirname "/usr/lib".toList, dirname "/usr/".toList, dirname "usr".toList, dirname "/".toList,
    dirname ".".toList, dirname "a//b/".toList] =
    ["/usr".toList, "/".toList, ".".toList, "/".toList, ".".toList, "a".toList] := by decide

/-! ## Trailing separators -/

def Open (text : Text) : Prop := ∀ before, text ≠ before ++ [separator]

theorem open_of_notMem {text : Text} (h : separator ∉ text) : Open text := by
  rintro before rfl
  exact h (mem_append_right _ mem_cons_self)

theorem removeSuffix_open {text : Text} (h : Open text) : removeSuffix text [separator] = text := by
  rw [removeSuffix, if_neg]
  rw [isSuffixOf_iff_suffix]
  rintro ⟨before, hb⟩
  exact h before hb.symm

theorem removeSuffix_closed (text : Text) : removeSuffix (text ++ [separator]) [separator] = text := by
  rw [removeSuffix]
  simp

/-! ## Texts as components behind separators -/

/-- A first token and further ones, each behind a separator. -/
def glue (first : Text) (rest : List Text) : Text := first ++ rest.flatMap fun token => separator :: token

structure Tidy (first : Text) (rest : List Text) : Prop where
  unseparated : separator ∉ first
  tokens : ∀ token ∈ rest, token ≠ [] ∧ separator ∉ token

theorem glue_nil (first : Text) : glue first [] = first := append_nil _

theorem glue_concat (first : Text) (rest : List Text) (token : Text) :
    glue first (rest ++ [token]) = glue first rest ++ separator :: token := by
  rw [glue, flatMap_append, flatMap_singleton, ← append_assoc, glue]

variable {rest : List Text} {first token : Text}

theorem Tidy.left {more : List Text} (h : Tidy first (rest ++ more)) : Tidy first rest :=
  ⟨h.unseparated, fun token ht => h.tokens token (mem_append_left _ ht)⟩

theorem Tidy.last (h : Tidy first (rest ++ [token])) :
    token ≠ [] ∧ separator ∉ token := h.tokens token (mem_append_right _ mem_cons_self)

theorem Tidy.open (h : Tidy first rest) : Open (glue first rest) := by
  rcases eq_nil_or_concat' rest with rfl | ⟨front, token, rfl⟩
  · rw [glue_nil]
    exact open_of_notMem h.unseparated
  rintro before hb
  obtain ⟨hne, hsep⟩ := h.last
  obtain ⟨_, c, rfl⟩ := (eq_nil_or_concat' token).resolve_left hne
  rw [glue_concat, ← cons_append, ← append_assoc] at hb
  have hc : c = separator := singleton_inj.1 (append_inj_right' hb rfl)
  exact hsep (mem_append_right _ (hc ▸ mem_cons_self))

theorem join_glue (h : Tidy first (rest ++ [token])) : join (glue first rest) token = glue first (rest ++ [token]) := by
  obtain ⟨_, hsep⟩ := h.last
  have ht : removePrefix token [separator] = token := by
    rw [removePrefix, if_neg]
    rw [List.isPrefixOf_iff_prefix]
    rintro ⟨_, rfl⟩
    exact hsep mem_cons_self
  rw [join, removeSuffix_open h.left.open, ht, glue_concat]

theorem joinAll_glue : ∀ {rest : List Text}, Tidy first rest → joinAll (first :: rest) = glue first rest := by
  intro rest
  induction rest using reverseRecOn with
  | nil => exact fun _ => (glue_nil first).symm
  | append_singleton rest token ih =>
    intro h
    have hf : joinAll (first :: (rest ++ [token])) = join (joinAll (first :: rest)) token := by
      simp [joinAll, foldl_append]
    rw [hf, ih h.left, join_glue h]

theorem intercalate_glue (first : Text) : ∀ rest : List Text, [separator].intercalate (first :: rest) = glue first rest
  | [] => by simp [intercalate, glue]
  | token :: rest => by
    have ih := intercalate_glue token rest
    rw [glue, flatMap_cons, cons_append, show token ++ _ = glue token rest from rfl, ← ih]
    simp [intercalate]

theorem splitOn_glue (hf : separator ∉ first)
    (hr : ∀ token ∈ rest, separator ∉ token) : (glue first rest).splitOn separator = first :: rest := by
  rw [← intercalate_glue]
  refine splitOn_intercalate separator (fun token ht => ?_) (cons_ne_nil _ _)
  rcases mem_cons.1 ht with rfl | ht
  · exact hf
  · exact hr token ht

end Path
end Stout
