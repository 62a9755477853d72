import Clusterd.StoutPath
import Mathlib.Data.List.AList
import Mathlib.Data.List.Infix
/-!
# The files process

`attach` puts a file or directory of the agent under a virtual path, with or without a callback that decides who may see it.
`resolve` finds the file that a requested virtual path names, `authorize` the callback to ask.  Each reads the string in its own
way: `resolve` splits it at every separator and joins the tokens again, `authorize` walks up with `Path::dirname`.
-/
namespace Clusterd.Files

open Stout Stout.Strings Stout.Path

/-- A component of a canonical path. -/
structure Name where
  text : Text
  nonempty : text ≠ []
  unseparated : separator ∉ text
  proper : text ≠ ['.'] ∧ text ≠ ['.', '.']
deriving DecidableEq

/-- A canonical absolute path: no symbolic link, no `.`, no `..`, no repeated or trailing separator. -/
abbrev RealPath := List Name

def RealPath.text : RealPath → Text
  | [] => [separator]
  | name :: names => (name :: names).flatMap fun name => separator :: name.text

/-- What the process asks the operating system; `realpath` answers with a canonical path, with nothing for a file that
does not exist, or with an error. -/
structure FileSystem where
  realpath : Text → Except Text (Option RealPath)
  access : Text → Except Text Bool
  isdir : Text → Bool

structure FilesProcess (Callback : Type) where
  paths : AList fun _ : Text => RealPath := ∅
  authorizations : AList fun _ : Text => Callback := ∅

variable {Callback : Type}

def cleaned (virtualPath : Text) : Text := removeSuffix (fromUri virtualPath) [separator]

def FilesProcess.attach (fs : FileSystem) (files : FilesProcess Callback) (path virtualPath : Text)
    (authorized : Option Callback) : Except Text (FilesProcess Callback) :=
  let convertedPath := fromUri path
  match fs.realpath convertedPath with
  | .error e => .error ("Failed to get realpath of '".toList ++ convertedPath ++ "': ".toList ++ e)
  | .ok none =>
    .error ("Failed to get realpath of '".toList ++ convertedPath ++ "': ".toList ++ "No such file or directory".toList)
  | .ok (some result) =>
    -- Permissions to read the file or directory.
    match fs.access result.text with
    | .error e => .error ("Failed to access '".toList ++ convertedPath ++ "': ".toList ++ e)
    | .ok false => .error ("Failed to access '".toList ++ convertedPath ++ "': ".toList ++ "Access denied".toList)
    | .ok true =>
      .ok { paths := files.paths.insert (cleaned virtualPath) result,
            authorizations := match authorized with
              | some callback => files.authorizations.insert (cleaned virtualPath) callback
              | none => files.authorizations }

def FilesProcess.detach (files : FilesProcess Callback) (virtualPath : Text) : FilesProcess Callback :=
  { paths := files.paths.erase (fromUri virtualPath),
    authorizations := files.authorizations.erase (fromUri virtualPath) }

/-! ## Authorization -/

/-- The `do ... while` loop of `authorize`; a walk from a path takes at most as many turns as the path has letters. -/
def FilesProcess.climb (files : FilesProcess Callback) : Nat → Text → Option (Text × Callback)
  | 0, _ => none
  | turns + 1, requestedPath =>
    let parent := dirname requestedPath
    match files.authorizations.lookup parent with
    | some callback => some (parent, callback)
    | none => if dirname parent ≠ parent then files.climb turns parent else none

/-- The virtual path whose callback is asked, with the callback; `none` stands for `true` without asking anyone. -/
def FilesProcess.authorize (files : FilesProcess Callback) (requestedPath : Text) : Option (Text × Callback) :=
  let trimmedPath := removeSuffix requestedPath [separator]
  match files.authorizations.lookup trimmedPath with
  | some callback => some (trimmedPath, callback)
  | none => files.climb (requestedPath.length + 1) requestedPath

/-! ## Resolution -/

def tokens (path : Text) : List Text := split (removeSuffix path [separator]) separator

/-- The loop of `resolve`, over the tokens from the last one on: the attached virtual path, its file and the suffix
left over. -/
def FilesProcess.search (files : FilesProcess Callback) : List Text → Text → Option (Text × RealPath × Text)
  | [], _ => none
  | last :: front, suffix =>
    let virtualPath := joinAll (last :: front).reverse
    match files.paths.lookup virtualPath with
    | some path => some (virtualPath, path, suffix)
    | none => files.search front (if suffix = [] then last else join last suffix)

/-- `Result<string>`: the file found, nothing found, or an error. -/
def FilesProcess.resolve (fs : FileSystem) (files : FilesProcess Callback) (path : Text) :
    Except Text (Option RealPath) :=
  match files.search (tokens path).reverse [] with
  | none => .ok none
  | some (_, attached, suffix) =>
    if fs.isdir attached.text then
      let path := join attached.text suffix
      match fs.realpath path with
      | .error e => .error ("Failed to determine canonical path of '".toList ++ path ++ "': ".toList ++ e)
      | .ok none => .ok none
      | .ok (some realpath) =>
        -- The canonical path must not lead out of the attached one.
        if startsWith realpath.text attached.text then .ok (some realpath)
        else .error ("'".toList ++ path ++ "' is inaccessible".toList)
    else if suffix ≠ [] then .ok none
    else .ok (some attached)

end Clusterd.Files

/-!
# Resolved files and the attached directory

`resolve` compares the canonical path with the attached one as texts.  The comparison accepts every file in the attached
directory, and beyond it exactly those below a sibling whose name goes on where the name of the attached directory ends
(`startsWith_text`).
-/
namespace Clusterd.Files

open Stout Stout.Strings Stout.Path List

variable {Callback : Type}

/-! ## Canonical paths as texts -/

/-- The path lies below a sibling of `attached` whose name properly extends the name of `attached`. -/
def Beside (attached path : RealPath) : Prop :=
  ∃ parent name other below, attached = parent ++ [name] ∧ path = parent ++ other :: below ∧
    name.text <+: other.text ∧ name ≠ other

theorem Name.ext_text {a b : Name} (h : a.text = b.text) : a = b := by
  cases a; cases b; cases h; rfl

def flat (path : RealPath) : Text := path.flatMap fun name => separator :: name.text

theorem flat_cons (name : Name) (path : RealPath) : flat (name :: path) = separator :: (name.text ++ flat path) := rfl

theorem text_of_ne_nil : ∀ {path : RealPath}, path ≠ [] → path.text = flat path
  | [], h => absurd rfl h
  | _ :: _, _ => rfl

theorem prefix_name {text : Text} (hsep : separator ∉ text) (name : Name) (path : RealPath)
    (h : text <+: name.text ++ flat path) : text <+: name.text := by
  rcases prefix_or_prefix_of_prefix h (prefix_append name.text (flat path)) with h' | ⟨more, rfl⟩
  · exact h'
  have hm : more <+: flat path := (prefix_append_right_inj _).1 h
  cases path with
  | nil =>
    rw [prefix_nil.1 hm, append_nil]
  | cons =>
    cases more with
    | nil => rw [append_nil]
    | cons =>
      rw [flat_cons, cons_prefix_cons] at hm
      exact absurd (mem_append_right _ (hm.1 ▸ mem_cons_self)) hsep

variable {attached path : RealPath}

theorem Beside.cons (name : Name) (h : Beside attached path) : Beside (name :: attached) (name :: path) := by
  obtain ⟨parent, own, other, below, rfl, rfl, hpre, hne⟩ := h
  exact ⟨name :: parent, own, other, below, rfl, rfl, hpre, hne⟩

/-- **A path's text starts another's** if its components do, or if its last name only goes on. -/
theorem flat_prefix : ∀ {attached path : RealPath}, attached ≠ [] →
    (flat attached <+: flat path ↔ attached <+: path ∨ Beside attached path)
  | [], _, hne => absurd rfl hne
  | name :: attached, [], _ => by
    constructor
    · intro h
      exact absurd (prefix_nil.1 h) (cons_ne_nil _ _)
    · rintro (h | ⟨parent, own, other, below, -, hpa, -, -⟩)
      · exact absurd (prefix_nil.1 h) (cons_ne_nil _ _)
      · exact absurd hpa.symm (append_ne_nil_of_right_ne_nil _ (cons_ne_nil _ _))
  | name :: attached, other :: path, _ => by
    rw [flat_cons, flat_cons, cons_prefix_cons]
    by_cases hna : name = other
    · subst hna
      by_cases hatt : attached = []
      · subst hatt
        refine ⟨fun _ => .inl ⟨path, rfl⟩, fun _ => ⟨rfl, ?_⟩⟩
        exact (prefix_append_right_inj _).2 (List.nil_prefix)
      rw [prefix_append_right_inj, flat_prefix hatt]
      constructor
      · rintro ⟨-, h | h⟩
        · exact .inl (cons_prefix_cons.2 ⟨rfl, h⟩)
        · exact .inr (h.cons name)
      rintro (h | ⟨parent, own, next, below, ha, hpa, hpre, hne⟩)
      · exact ⟨rfl, .inl (cons_prefix_cons.1 h).2⟩
      cases parent with
      | nil => exact absurd (cons.inj ha).2 hatt
      | cons _ parent =>
        have h1 := (cons.inj ha).2
        have h2 := (cons.inj hpa).2
        exact ⟨rfl, .inr ⟨parent, own, next, below, h1, h2, hpre, hne⟩⟩
    · constructor
      · rintro ⟨-, h⟩
        have hpre : name.text <+: other.text :=
          prefix_name name.unseparated other path ((prefix_append _ _).trans h)
        cases attached with
        | nil => exact .inr ⟨[], name, other, path, rfl, rfl, hpre, hna⟩
        | cons =>
          -- The separator behind `name` would have to stand inside `other`.
          exfalso
          obtain ⟨more, hm⟩ := hpre
          cases more with
          | nil => exact hna (Name.ext_text (by rw [← hm, append_nil]))
          | cons =>
            rw [← hm, append_assoc, prefix_append_right_inj, flat_cons, cons_append, cons_prefix_cons] at h
            exact other.unseparated (hm ▸ mem_append_right _ (h.1 ▸ mem_cons_self))
      · rintro (h | ⟨parent, _, _, _, ha, hpa, hpre, _⟩)
        · exact absurd (cons_prefix_cons.1 h).1 hna
        cases parent with
        | nil =>
          obtain ⟨rfl, rfl⟩ := cons.inj ha
          obtain ⟨rfl, rfl⟩ := cons.inj hpa
          refine ⟨rfl, ?_⟩
          rw [show flat ([] : RealPath) = [] from rfl, append_nil]
          exact hpre.trans (prefix_append _ _)
        | cons =>
          exact absurd ((cons.inj ha).1.trans (cons.inj hpa).1.symm) hna

/-- **What the comparison of texts accepts.** -/
theorem startsWith_text (attached path : RealPath) :
    startsWith path.text attached.text = true ↔ attached <+: path ∨ Beside attached path := by
  rw [startsWith, isPrefixOf_iff_prefix]
  cases attached with
  | nil =>
    refine ⟨fun _ => .inl nil_prefix, fun _ => ?_⟩
    cases path with
    | nil => exact prefix_rfl
    | cons name path => exact ⟨name.text ++ flat path, rfl⟩
  | cons name attached =>
    have hne : name :: attached ≠ [] := cons_ne_nil _ _
    rw [text_of_ne_nil hne]
    cases path with
    | cons =>
      exact flat_prefix hne
    | nil =>
      constructor
      · intro h
        -- The root's text is one separator, too short for a component.
        have hlen := h.length_le
        rw [flat_cons] at hlen
        simp [RealPath.text] at hlen
        exact absurd hlen.1 name.nonempty
      · rintro (h | ⟨_, _, _, _, -, hpa, -, -⟩)
        · exact absurd (prefix_nil.1 h) (cons_ne_nil _ _)
        · exact absurd hpa.symm (append_ne_nil_of_right_ne_nil _ (cons_ne_nil _ _))

/-! ## The longest attached prefix -/

/-- The front part of the requested path's tokens is the longest one whose virtual path is attached. -/
structure Longest (files : FilesProcess Callback) (request : Text) (front rest : List Text) (attached : RealPath) :
    Prop where
  tokens : tokens request = front ++ rest
  nonempty : front ≠ []
  attached : files.paths.lookup (joinAll front) = some attached
  longest : ∀ longer more, Files.tokens request = longer ++ more → front.length < longer.length →
    files.paths.lookup (joinAll longer) = none

/-- What `resolve` appends to the attached path. -/
def suffix : List Text → Text
  | [] => []
  | token :: rest => if suffix rest = [] then token else join token (suffix rest)

variable {files : FilesProcess Callback} {request : Text}

/-- **The search stops at the longest attached prefix**, or no prefix is attached. -/
theorem search_spec : ∀ {front rest : List Text}, tokens request = front.reverse ++ rest →
      (∀ longer more, tokens request = longer ++ more → front.length < longer.length →
        files.paths.lookup (joinAll longer) = none) →
      (∃ front' rest' attached, Longest files request front' rest' attached ∧
        files.search front (suffix rest) = some (joinAll front', attached, suffix rest')) ∨
      files.search front (suffix rest) = none ∧ ∀ longer more, longer ≠ [] → tokens request = longer ++ more →
        files.paths.lookup (joinAll longer) = none
  | [], _, _, hlo => .inr ⟨rfl, fun longer more hne hm => hlo longer more hm (length_pos_iff.2 hne)⟩
  | last :: front, rest, ht, hlo => by
    rw [FilesProcess.search]
    cases hl : files.paths.lookup (joinAll (last :: front).reverse) with
    | some path =>
      refine .inl ⟨(last :: front).reverse, rest, path, ⟨ht, ?_, hl, ?_⟩, rfl⟩
      · exact fun h => cons_ne_nil _ _ (reverse_eq_nil_iff.1 h)
      · intro longer more hm hlen
        exact hlo longer more hm (by rwa [length_reverse] at hlen)
    | none =>
      have ht' : tokens request = front.reverse ++ last :: rest := by
        rw [ht, reverse_cons, append_assoc, singleton_append]
      refine search_spec ht' fun longer more hm _ => ?_
      by_cases hlt : (last :: front).length < longer.length
      · exact hlo longer more hm hlt
      -- A front of the same tokens with the same length is the one just looked up.
      have hlen' : longer.length = (last :: front).reverse.length := by
        rw [length_reverse, length_cons] at *
        omega
      rw [(append_inj (hm.symm.trans ht) hlen').1]
      exact hl

theorem Longest.unique {front rest front' rest' : List Text}
    {attached' : RealPath} (h : Longest files request front rest attached)
    (h' : Longest files request front' rest' attached') : front = front' ∧ rest = rest' ∧ attached = attached' := by
  have hle : front.length = front'.length := by
    rcases lt_trichotomy front.length front'.length with hlt | heq | hlt
    · have := h.longest front' rest' h'.tokens hlt
      rw [h'.attached] at this
      exact nomatch this
    · exact heq
    · have := h'.longest front rest h.tokens hlt
      rw [h.attached] at this
      exact nomatch this
  obtain ⟨rfl, rfl⟩ := append_inj (h.tokens.symm.trans h'.tokens) hle
  exact ⟨rfl, rfl, Option.some.inj (h.attached.symm.trans h'.attached)⟩

theorem search_whole : (∃ front rest attached, Longest files request front rest attached ∧
        files.search (tokens request).reverse [] = some (joinAll front, attached, suffix rest)) ∨
      files.search (tokens request).reverse [] = none ∧ ∀ longer more, longer ≠ [] → tokens request = longer ++ more →
        files.paths.lookup (joinAll longer) = none := by
  refine @search_spec _ files request (tokens request).reverse [] ?_ fun _ _ hm hlen => ?_
  · rw [reverse_reverse, append_nil]
  · rw [hm, length_reverse, length_append] at hlen
    omega

/-- **What the search from the whole request finds is the longest attached prefix.** -/
theorem longest_of_search {virtualPath left : Text}
    (h : files.search (tokens request).reverse [] = some (virtualPath, attached, left)) :
    ∃ front rest, Longest files request front rest attached ∧ virtualPath = joinAll front ∧ left = suffix rest := by
  rcases search_whole with ⟨front, rest, _, hl, hs⟩ | ⟨hs, -⟩
  · cases hs.symm.trans h
    exact ⟨front, rest, hl, rfl, rfl⟩
  · exact nomatch hs.symm.trans h

theorem search_longest {front rest : List Text} (h : Longest files request front rest attached) :
    files.search (tokens request).reverse [] = some (joinAll front, attached, suffix rest) := by
  rcases search_whole with ⟨_, _, _, hl, hs⟩ | ⟨-, hno⟩
  · obtain ⟨rfl, rfl, rfl⟩ := h.unique hl
    exact hs
  · exact nomatch h.attached.symm.trans (hno front rest h.nonempty h.tokens)

theorem resolve_some {fs : FileSystem} (h : files.resolve fs request = .ok (some path)) :
    ∃ front rest attached, Longest files request front rest attached ∧
      (fs.isdir attached.text = true ∧ fs.realpath (join attached.text (suffix rest)) = .ok (some path) ∧
          (attached <+: path ∨ Beside attached path) ∨ fs.isdir attached.text = false ∧ path = attached) := by
  rw [FilesProcess.resolve] at h
  cases hs : files.search (tokens request).reverse [] with
  | none =>
    rw [hs] at h
    exact nomatch h
  | some found =>
    obtain ⟨_, attached, _⟩ := found
    obtain ⟨front, rest, hl, rfl, rfl⟩ := longest_of_search hs
    rw [hs] at h
    refine ⟨front, rest, attached, hl, ?_⟩
    dsimp only at h
    cases hdir : fs.isdir attached.text with
    | false =>
      rw [hdir, if_neg Bool.false_ne_true] at h
      split at h
      · exact nomatch h
      · exact .inr ⟨rfl, (Option.some.inj (Except.ok.inj h)).symm⟩
    | true =>
      rw [hdir, if_pos rfl] at h
      split at h
      · exact nomatch h
      · exact nomatch h
      rename_i hr
      split at h
      next hst =>
        cases h
        exact .inl ⟨rfl, hr, (startsWith_text attached path).1 hst⟩
      · exact nomatch h

def LeadsBeside (fs : FileSystem) (attached : RealPath) (rest : List Text) : Prop :=
  ∃ path, fs.realpath (join attached.text (suffix rest)) = .ok (some path) ∧ Beside attached path

theorem Beside.not_prefix (h : Beside attached path) : ¬ attached <+: path := by
  obtain ⟨_, _, _, _, rfl, rfl, -, hne⟩ := h
  intro hpre
  rw [prefix_append_right_inj, cons_prefix_cons] at hpre
  exact hne hpre.1

/-- **A resolved file is the attached one or lies below it**, unless the request leads from the attached directory into
a sibling directory whose name goes on where the attached directory's name ends. -/
theorem resolve_inside_iff (fs : FileSystem) (files : FilesProcess Callback) (request : Text) :
    (∀ path, files.resolve fs request = .ok (some path) →
      ∃ front rest attached, Longest files request front rest attached ∧
        (path = attached ∨ ∃ name names, path = attached ++ name :: names)) ↔
    ∀ front rest attached, Longest files request front rest attached → fs.isdir attached.text = true →
      ¬ LeadsBeside fs attached rest := by
  constructor
  · rintro hinside front rest attached hlong hdir ⟨path, hreal, hbeside⟩
    have hresolve : files.resolve fs request = .ok (some path) := by
      rw [FilesProcess.resolve, search_longest hlong]
      dsimp only
      rw [hdir, hreal]
      exact if_pos ((startsWith_text attached path).2 (.inr hbeside))
    obtain ⟨_, _, _, hlong', hpath⟩ := hinside path hresolve
    obtain ⟨-, -, rfl⟩ := hlong.unique hlong'
    refine hbeside.not_prefix ?_
    rcases hpath with rfl | ⟨name, names, rfl⟩
    · exact prefix_rfl
    · exact prefix_append _ _
  · intro hnot path hresolve
    obtain ⟨front, rest, attached, hlong, ⟨hdir, hreal, ⟨more, rfl⟩ | hbeside⟩ | ⟨-, rfl⟩⟩ := resolve_some hresolve
    · refine ⟨front, rest, attached, hlong, ?_⟩
      cases more with
      | nil => exact .inl (append_nil _)
      | cons name names => exact .inr ⟨name, names, rfl⟩
    · exact absurd ⟨path, hreal, hbeside⟩ (hnot front rest attached hlong hdir)
    · exact ⟨front, rest, path, hlong, .inl rfl⟩

/-! ## A request into a sibling directory -/

/-- The directory reached from `at` along the components of a path, without symbolic links. -/
def walk : RealPath → List Text → Option RealPath
  | place, [] => some place
  | place, token :: rest =>
    if token = [] ∨ token = ['.'] then walk place rest
    else if token = ['.', '.'] then walk place.dropLast rest
    else if h : token ≠ [] ∧ separator ∉ token ∧ token ≠ ['.'] ∧ token ≠ ['.', '.'] then
      walk (place ++ [⟨token, h.1, h.2.1, h.2.2⟩]) rest
    else none

def plainSystem (existing : List RealPath) : FileSystem where
  realpath path := .ok ((walk [] (split path separator)).filter fun place => existing.any (place <+: ·))
  access _ := .ok true
  isdir path := match walk [] (split path separator) with
    | some place => existing.any fun file => place <+: file ∧ place ≠ file
    | none => false

def place (path : String) : RealPath := (walk [] (split path.toList separator)).getD []

/-- `/1/2` is attached as `/sandbox`, and the request `/sandbox/../2x/secret` is answered with `/1/2x/secret`. -/
theorem resolve_leaves_attached :
    ∃ files : FilesProcess Unit,
      ({} : FilesProcess Unit).attach (plainSystem [place "/1/2/log", place "/1/2x/secret"]) "/1/2".toList
        "/sandbox".toList none = .ok files ∧
      files.resolve (plainSystem [place "/1/2/log", place "/1/2x/secret"]) "/sandbox/../2x/secret".toList =
        .ok (some (place "/1/2x/secret")) ∧
      ¬ ∃ front rest attached, Longest files "/sandbox/../2x/secret".toList front rest attached ∧
        (place "/1/2x/secret" = attached ∨ ∃ name names, place "/1/2x/secret" = attached ++ name :: names) := by
  refine ⟨{ paths := AList.insert "/sandbox".toList (place "/1/2") ∅ }, rfl, rfl, ?_⟩
  rintro ⟨_, _, _, hlong, hinside⟩
  obtain ⟨_, _, hlong', -, -⟩ := longest_of_search
    (show ({ paths := AList.insert "/sandbox".toList (place "/1/2") ∅ } : FilesProcess Unit).search
      (tokens "/sandbox/../2x/secret".toList).reverse [] =
      some ("/sandbox".toList, place "/1/2", "../2x/secret".toList) from rfl)
  obtain ⟨-, -, rfl⟩ := hlong.unique hlong'
  have hprefix : place "/1/2" <+: place "/1/2x/secret" := by
    rcases hinside with h | ⟨name, names, h⟩
    · rw [h]
    · rw [h]
      exact prefix_append _ _
  exact nomatch hprefix

end Clusterd.Files
