import Clusterd.FilesInside
/-!
# Who is asked for a resolved file

`resolve` and `authorize` agree on requests without repeated separators: both then see the same components, one by
splitting and joining (`joinAll_glue`), the other by cutting off the last component again and again (`dirname_glue`).
-/
namespace Clusterd.Files

open Stout Stout.Strings Stout.Path List FilesProcess AList

variable {Callback : Type}

/-! ## Texts without repeated separators -/

theorem exists_glue : ∀ text : Text, ∃ first rest, separator ∉ first ∧ (∀ token ∈ rest, separator ∉ token) ∧
    text = glue first rest
  | [] => ⟨[], [], not_mem_nil, forall_mem_nil _, rfl⟩
  | c :: text => by
    obtain ⟨first, rest, hf, hr, rfl⟩ := exists_glue text
    by_cases hc : c = separator
    · subst hc
      exact ⟨[], first :: rest, not_mem_nil, forall_mem_cons.2 ⟨hf, hr⟩, rfl⟩
    refine ⟨c :: first, rest, fun hmem => ?_, hr, rfl⟩
    rcases mem_cons.1 hmem with h | h
    · exact hc h.symm
    · exact hf h

def Plain (text : Text) : Prop := ¬ [separator, separator] <:+: text

instance (text : Text) : Decidable (Plain text) := inferInstanceAs (Decidable (¬ _))

variable {text : Text}

theorem Plain.within {part : Text} (h : Plain text) (hpa : part <:+: text) : Plain part :=
  fun hsep => h (hsep.trans hpa)

theorem Plain.tidy (h : Plain text) (ho : Open text) : ∃ first rest, Tidy first rest ∧ text = glue first rest := by
  obtain ⟨first, rest, hf, hr, rfl⟩ := exists_glue text
  refine ⟨first, rest, ⟨hf, fun token ht => ⟨?_, hr token ht⟩⟩, rfl⟩
  rintro rfl
  -- An empty token leaves two separators in a row, or one at the end.
  obtain ⟨before, after, rfl⟩ := append_of_mem ht
  rw [show before ++ [] :: after = before ++ [[]] ++ after from by simp] at h ho
  cases after with
  | nil =>
    rw [append_nil, glue_concat] at ho
    exact ho _ rfl
  | cons token after =>
    refine h ⟨glue first before, token ++ after.flatMap (separator :: ·), ?_⟩
    rw [glue, glue]
    simp

/-- **A plain text is its tokens, with or without a trailing separator.** -/
theorem Plain.exists_tidy (h : Plain text) :
    ∃ first rest, Tidy first rest ∧ (text = glue first rest ∨ text = glue first rest ++ [separator]) := by
  by_cases ho : Open text
  · obtain ⟨first, rest, ht, heq⟩ := h.tidy ho
    exact ⟨first, rest, ht, .inl heq⟩
  obtain ⟨before, rfl⟩ : ∃ before, text = before ++ [separator] := by
    simpa [Open] using ho
  have hb : Open before := by
    rintro start rfl
    refine h ⟨start, [], ?_⟩
    simp
  obtain ⟨first, rest, ht, rfl⟩ := (h.within (prefix_append _ _).isInfix).tidy hb
  exact ⟨first, rest, ht, .inr rfl⟩

/-! ## The directories that `authorize` walks through -/

theorem Plain.not_uri (h : Plain text) : removePrefix text uriScheme = text := by
  rw [removePrefix, if_neg]
  rw [List.isPrefixOf_iff_prefix]
  rintro ⟨more, rfl⟩
  exact h ⟨['f', 'i', 'l', 'e', ':'], more, rfl⟩

variable {tail : Text} {p : Char → Bool}

theorem rdropWhile_append (ht : ∀ c ∈ tail, p c = true)
    (hte : ∀ before c, text = before ++ [c] → p c = false) : (text ++ tail).rdropWhile p = text := by
  induction tail using reverseRecOn with
  | nil =>
    rw [append_nil]
    rcases eq_nil_or_concat' text with rfl | ⟨before, c, rfl⟩
    · exact rdropWhile_nil p
    · exact rdropWhile_concat_neg p _ c (Bool.eq_false_iff.1 (hte before c rfl))
  | append_singleton _ c ih =>
    rw [← append_assoc, rdropWhile_concat_pos p _ c (ht c (by simp))]
    exact ih fun d hd => ht d (mem_append_left _ hd)

theorem rdropWhile_open (h : Open text) (ht : ∀ c ∈ tail, c = separator) :
    (text ++ tail).rdropWhile (fun c => decide (c = separator)) = text := by
  refine rdropWhile_append (fun c hc => decide_eq_true (ht c hc)) fun before _ hc => decide_eq_false ?_
  rintro rfl
  exact h before hc

variable {rest : List Text} {first token : Text}

/-- **`dirname` cuts the last token off**; the empty text in front of a leading separator reads as the root. -/
theorem dirname_glue (h : Tidy first (rest ++ [token]))
    (ht : tail = [] ∨ tail = [separator]) (hpl : Plain (glue first (rest ++ [token]) ++ tail)) :
    dirname (glue first (rest ++ [token]) ++ tail) = if glue first rest = [] then [separator] else glue first rest := by
  obtain ⟨hne, hsep⟩ := h.last
  have ht' : ∀ c ∈ tail, c = separator := by
    rcases ht with rfl | rfl
    · exact forall_mem_nil _
    · exact fun c hc => mem_singleton.1 hc
  have hv : glue first (rest ++ [token]) ++ tail ≠ [] := by
    rw [glue_concat]
    simp
  have hn : (glue first (rest ++ [token]) ++ tail).rdropWhile (fun c => decide (c = separator)) =
      glue first rest ++ [separator] ++ token := by
    rw [rdropWhile_open h.open ht', glue_concat, append_assoc, singleton_append]
  have hut : (glue first rest ++ [separator] ++ token).rdropWhile (fun c => decide (c ≠ separator)) =
      glue first rest ++ [separator] := by
    refine rdropWhile_append (fun c hc => decide_eq_true fun heq => hsep (heq ▸ hc)) fun _ c hc => ?_
    rw [← singleton_inj.1 (append_inj_right' hc rfl)]
    rfl
  have hpa : (glue first rest ++ [separator]).rdropWhile (fun c => decide (c = separator)) = glue first rest :=
    rdropWhile_open h.left.open fun _ hc => mem_singleton.1 hc
  rw [dirname, hpl.not_uri]
  simp only [hv, hn, hut, hpa, if_false, append_eq_nil_iff, hne, and_false, cons_ne_nil]

theorem glue_append (first : Text) (rest more : List Text) :
    glue first (rest ++ more) = glue first rest ++ more.flatMap (separator :: ·) := by
  rw [glue, flatMap_append, ← append_assoc, glue]

theorem Plain.glue_left {more : List Text} (h : Plain (glue first (rest ++ more) ++ tail)) :
    Plain (glue first rest ++ []) := by
  rw [append_nil]
  refine h.within (List.IsPrefix.isInfix ?_)
  rw [glue_append, append_assoc]
  exact prefix_append _ _

theorem dirname_ne_glue (h : Tidy first (rest ++ [token])) (hpl : Plain (glue first (rest ++ [token]) ++ [])) :
    dirname (glue first (rest ++ [token])) ≠ glue first (rest ++ [token]) := by
  have hd := dirname_glue h (.inl rfl) hpl
  rw [append_nil] at hd
  rw [hd, glue_concat]
  split
  next hnil =>
    rw [hnil]
    exact fun heq => h.last.1 (cons.inj heq).2.symm
  · exact fun heq => cons_ne_nil _ _ (self_eq_append_right.1 heq)

variable {files : FilesProcess Callback} {virtualPath : Text}

/-- **The walk up stops at a path with a callback between the request and any given one above it.** -/
theorem climb_glue {front : List Text} (hre : glue first front ∈ files.authorizations) (hn : glue first front ≠ []) :
    ∀ {rest : List Text} {tail : Text} {turns : Nat}, Tidy first rest → (tail = [] ∨ tail = [separator]) →
      Plain (glue first rest ++ tail) → front <+: rest → front ≠ rest → rest.length < turns →
      ∃ between callback, front <+: between ∧ between <+: rest ∧ between ≠ rest ∧
        files.climb turns (glue first rest ++ tail) = some (glue first between, callback) ∧
        files.authorizations.lookup (glue first between) = some callback := by
  intro rest
  induction rest using reverseRecOn with
  | nil =>
    intro tail turns _ _ _ hpr hne
    exact absurd (prefix_nil.1 hpr) hne
  | append_singleton rest token ih =>
    intro tail turns ht hta hpl hpr hne htu
    obtain ⟨turns, rfl⟩ : ∃ n, turns = n + 1 := ⟨turns - 1, by omega⟩
    have hf : front <+: rest := (prefix_concat_iff.1 hpr).resolve_left hne
    have hr : rest <+: rest ++ [token] := prefix_append _ _
    have hr' : rest ≠ rest ++ [token] := by simp
    have hpa : dirname (glue first (rest ++ [token]) ++ tail) = glue first rest := by
      rw [dirname_glue ht hta hpl, if_neg]
      intro hnil
      obtain ⟨_, rfl⟩ := hf
      rw [glue_append] at hnil
      exact hn (append_eq_nil_iff.1 hnil).1
    rw [climb, hpa]
    cases hl : files.authorizations.lookup (glue first rest) with
    | some callback => exact ⟨rest, callback, hf, hr, hr', rfl, hl⟩
    | none =>
      have hne' : front ≠ rest := by
        rintro rfl
        exact lookup_eq_none.1 hl hre
      have hpl' : Plain (glue first rest ++ []) := hpl.glue_left
      have hlen : rest.length < turns := by
        rw [length_append, length_singleton] at htu
        omega
      obtain ⟨between, callback, h1, h2, _, hc, h4⟩ := ih ht.left (.inl rfl) hpl' hf hne' hlen
      refine ⟨between, callback, h1, h2.trans hr, ?_, ?_, h4⟩
      · rintro rfl
        exact hr' (h2.eq_of_length_le (by simp)).symm
      rw [append_nil] at hc
      have hon : dirname (glue first rest) ≠ glue first rest := by
        rcases eq_nil_or_concat' rest with rfl | ⟨above, last, rfl⟩
        · exact absurd (prefix_nil.1 hf) hne'
        · exact dirname_ne_glue ht.left hpl'
      exact (if_pos hon).trans hc

theorem length_rdropWhile_lt (hne : text ≠ [])
    (hl : p (text.getLast hne) = true) : (text.rdropWhile p).length < text.length := by
  refine lt_of_le_of_ne (List.rdropWhile_prefix p text).length_le fun heq => ?_
  exact rdropWhile_eq_self_iff.1 ((List.rdropWhile_prefix p text).eq_of_length heq) hne hl

theorem dirname_end (path : Text) :
    dirname path = ['.'] ∨ dirname path = [separator] ∨ (dirname path).length < path.length := by
  have hv : (removePrefix path uriScheme).length ≤ path.length := by
    rw [removePrefix]
    split
    · rw [length_drop]
      omega
    · exact le_rfl
  rw [dirname]
  dsimp only
  split
  · exact .inl rfl
  split
  · exact .inr (.inl rfl)
  split
  · exact .inl rfl
  split
  · exact .inr (.inl rfl)
  rename_i hup _
  -- What is left of the last separator is shorter than the text up to it.
  refine .inr (.inr ?_)
  refine (length_rdropWhile_lt hup ?_).trans_le ?_
  · simpa using rdropWhile_last_not _ _ hup
  · exact (List.rdropWhile_prefix _ _).length_le.trans ((List.rdropWhile_prefix _ _).length_le.trans hv)

/-- **The turns given to the walk are enough**: more of them give the same answer. -/
theorem climb_turns (files : FilesProcess Callback) : ∀ (turns more : Nat) (path : Text), path.length < turns →
    files.climb (turns + more) path = files.climb turns path
  | 0, _, _, h => absurd h (Nat.not_lt_zero _)
  | turns + 1, more, path, h => by
    rw [Nat.add_right_comm, climb, climb]
    cases files.authorizations.lookup (dirname path) with
    | some => rfl
    | none =>
      by_cases hend : dirname (dirname path) ≠ dirname path
      · rw [if_pos hend, if_pos hend]
        rcases dirname_end path with hdot | hr | hlen
        · exact absurd (by rw [hdot]; rfl) hend
        · exact absurd (by rw [hr]; rfl) hend
        · exact climb_turns files turns more (dirname path) (by omega)
      · rw [if_neg hend, if_neg hend]

/-! ## Runs of the files process -/

def components (virtualPath : Text) : List Text := tokenize virtualPath separator

/-- Below the root; `attach` records the root itself as the empty text. -/
def rooted (virtualPath : Text) : Bool := virtualPath = [] ∨ virtualPath.head? = some separator

/-- `directory` is a proper ancestor of `virtualPath`. -/
def Ancestor (directory virtualPath : Text) : Prop :=
  rooted directory = rooted virtualPath ∧ ∃ next rest, components virtualPath = components directory ++ next :: rest

inductive Call (Callback : Type) where
  | attach (fs : FileSystem) (path virtualPath : Text) (authorized : Option Callback)
  | detach (virtualPath : Text)

/-- A failed `attach` changes nothing. -/
def FilesProcess.call (files : FilesProcess Callback) : Call Callback → FilesProcess Callback
  | .attach fs path virtualPath authorized =>
    match files.attach fs path virtualPath authorized with
    | .ok files => files
    | .error _ => files
  | .detach virtualPath => files.detach virtualPath

def FilesProcess.after (calls : List (Call Callback)) : FilesProcess Callback := calls.foldl FilesProcess.call {}

/-- A file resolved through an attached virtual path that has a callback, or has an ancestor with one, is only given
out after such a callback was asked: the path's own one if there is one. -/
def Guarded (fs : FileSystem) (files : FilesProcess Callback) (request : Text) : Prop :=
  ∀ front rest attached path, Longest files request front rest attached →
    files.resolve fs request = .ok (some path) →
    (joinAll front ∈ files.authorizations ∨ ∃ directory ∈ files.authorizations, Ancestor directory (joinAll front)) →
    ∃ asked callback, files.authorize request = some (asked, callback) ∧
      (asked = joinAll front ∨ joinAll front ∉ files.authorizations ∧ Ancestor asked (joinAll front))

def Call.Plain : Call Callback → Prop
  | .attach _ _ virtualPath (some _) => Files.Plain (fromUri virtualPath) ∧ cleaned virtualPath ≠ []
  | _ => True

def Registered (files : FilesProcess Callback) : Prop :=
  ∀ virtualPath ∈ files.authorizations, virtualPath ∈ files.paths ∧ virtualPath ≠ [] ∧
    ∃ first rest, Tidy first rest ∧ virtualPath = glue first rest

theorem cleaned_tidy (h : Plain (fromUri virtualPath)) :
    ∃ first rest, Tidy first rest ∧ cleaned virtualPath = glue first rest := by
  obtain ⟨first, rest, ht, heq | heq⟩ := h.exists_tidy
  · exact ⟨first, rest, ht, by rw [cleaned, heq, removeSuffix_open ht.open]⟩
  · exact ⟨first, rest, ht, by rw [cleaned, heq, removeSuffix_closed]⟩

theorem attach_ok {fs : FileSystem} {files' : FilesProcess Callback} {path : Text}
    {authorized : Option Callback} (h : files.attach fs path virtualPath authorized = .ok files') :
    ∃ result, files'.paths = files.paths.insert (cleaned virtualPath) result ∧
      (authorized = none → files'.authorizations = files.authorizations) ∧ ∀ callback, authorized = some callback →
        files'.authorizations = files.authorizations.insert (cleaned virtualPath) callback := by
  unfold FilesProcess.attach at h
  dsimp only at h
  split at h
  · exact nomatch h
  · exact nomatch h
  rename_i result _
  split at h
  · exact nomatch h
  · exact nomatch h
  cases h
  refine ⟨result, rfl, ?_, ?_⟩
  · rintro rfl
    rfl
  · rintro callback rfl
    rfl

theorem Registered.call (h : Registered files) {call : Call Callback} (hc : call.Plain) :
    Registered (files.call call) := by
  cases call with
  | detach =>
    intro other ho
    obtain ⟨hne, hmem⟩ := mem_erase.1 ho
    obtain ⟨hpa, hr⟩ := h other hmem
    exact ⟨mem_erase.2 ⟨hne, hpa⟩, hr⟩
  | attach fs path virtualPath authorized =>
    rw [FilesProcess.call]
    cases ha : files.attach fs path virtualPath authorized with
    | error => exact h
    | ok =>
      obtain ⟨_, hpa, hno, hs⟩ := attach_ok ha
      intro other ho
      rw [hpa, mem_insert]
      cases authorized with
      | none =>
        rw [hno rfl] at ho
        obtain ⟨hmem, hr⟩ := h other ho
        exact ⟨.inr hmem, hr⟩
      | some callback =>
        rw [hs callback rfl] at ho
        rcases (mem_insert _).1 ho with rfl | hmem
        · exact ⟨.inl rfl, hc.2, cleaned_tidy hc.1⟩
        · obtain ⟨hmem, hr⟩ := h other hmem
          exact ⟨.inr hmem, hr⟩

theorem Registered.after {calls : List (Call Callback)} (h : ∀ call ∈ calls, call.Plain) :
    Registered (after calls) :=
  foldlRecOn calls FilesProcess.call (fun path hmem => absurd hmem (notMem_empty path)) fun _ hf call hc =>
    hf.call (h call hc)

/-! ## Requests without repeated separators -/

variable (h : Tidy first rest)
include h

theorem components_glue : components (glue first rest) = if first = [] then rest else first :: rest := by
  rw [components, tokenize, splitOn_glue h.unseparated fun token ht => (h.tokens token ht).2]
  have hr : rest.filter (fun token => !token.isEmpty) = rest := by
    refine filter_eq_self.2 fun token ht => ?_
    simpa using (h.tokens token ht).1
  cases first with
  | nil | cons => simpa using hr

theorem rooted_glue : rooted (glue first rest) = decide (first = []) := by
  cases first with
  | nil =>
    cases rest with
    | nil => rfl
    | cons => simp [rooted, glue]
  | cons c =>
    have hc : c ≠ separator := fun heq => h.unseparated (heq ▸ mem_cons_self)
    simp [rooted, glue, hc]

/-- **Ancestors of tidy texts have a part of their tokens.** -/
theorem ancestor_glue {first' : Text} {rest' : List Text} (h' : Tidy first' rest') :
    Ancestor (glue first rest) (glue first' rest') ↔ first = first' ∧ rest <+: rest' ∧ rest ≠ rest' := by
  rw [Ancestor, rooted_glue h, rooted_glue h', components_glue h, components_glue h']
  constructor
  · rintro ⟨hr, next, more, hm⟩
    by_cases hf : first = []
    · have hf' : first' = [] := by
        rw [decide_eq_true hf] at hr
        exact of_decide_eq_true hr.symm
      rw [if_pos hf, if_pos hf'] at hm
      subst hm
      exact ⟨hf.trans hf'.symm, prefix_append _ _, by simp⟩
    · have hf' : first' ≠ [] := by
        rw [decide_eq_false hf] at hr
        exact of_decide_eq_false hr.symm
      rw [if_neg hf, if_neg hf'] at hm
      obtain ⟨rfl, rfl⟩ := cons.inj hm
      exact ⟨rfl, prefix_append _ _, by simp⟩
  · rintro ⟨rfl, ⟨more, rfl⟩, hne⟩
    cases more with
    | nil => exact absurd (append_nil _).symm hne
    | cons next more =>
      refine ⟨rfl, next, more, ?_⟩
      split
      · rfl
      · rfl

theorem tokens_glue (hta : tail = [] ∨ tail = [separator]) :
    removeSuffix (glue first rest ++ tail) [separator] = glue first rest ∧
      tokens (glue first rest ++ tail) = first :: rest := by
  have htr : removeSuffix (glue first rest ++ tail) [separator] = glue first rest := by
    rcases hta with rfl | rfl
    · rw [append_nil, removeSuffix_open h.open]
    · exact removeSuffix_closed _
  refine ⟨htr, ?_⟩
  rw [tokens, htr, split, splitOn_glue h.unseparated fun token ht => (h.tokens token ht).2]

omit h

theorem length_le_glue (first : Text) : ∀ rest : List Text, rest.length ≤ (glue first rest).length := by
  intro rest
  induction rest using reverseRecOn with
  | nil => exact Nat.zero_le _
  | append_singleton =>
    rw [glue_concat, length_append, length_append, length_singleton, length_cons]
    omega

/-- **Resolution and authorization agree on a plain request.** -/
theorem Registered.guarded (h : Registered files) (fs : FileSystem) {request : Text}
    (hpl : Plain request) : Guarded fs files request := by
  obtain ⟨first, all, hti, hr⟩ := hpl.exists_tidy
  obtain ⟨tail, hta, rfl⟩ : ∃ tail, (tail = [] ∨ tail = [separator]) ∧ request = glue first all ++ tail := by
    rcases hr with rfl | rfl
    · exact ⟨[], .inl rfl, (append_nil _).symm⟩
    · exact ⟨[separator], .inr rfl, rfl⟩
  obtain ⟨htr, hto⟩ := tokens_glue hti hta
  intro front rest attached _ hl _ hpr
  -- The front of the tokens is the first one and some of the others.
  obtain ⟨own, rfl⟩ : ∃ own, front = first :: own := by
    cases front with
    | nil => exact absurd rfl hl.nonempty
    | cons _ own =>
      have := hl.tokens
      rw [hto] at this
      exact ⟨own, by rw [(cons.inj this).1]⟩
  have hall : all = own ++ rest := by
    have := hl.tokens
    rw [hto] at this
    exact (cons.inj this).2
  subst hall
  have hown : Tidy first own := hti.left
  rw [joinAll_glue hown] at hpr ⊢
  -- No longer part of the request has a callback: it would be attached.
  have hlo : ∀ more, own <+: more → more <+: own ++ rest → glue first more ∈ files.authorizations → more = own := by
    intro more hm hrs hmem
    by_contra hne
    have hlen : (first :: own).length < (first :: more).length := by
      have := hm.length_le.lt_of_ne fun heq => hne (hm.eq_of_length heq).symm
      simpa using this
    obtain ⟨left, hlf⟩ := hrs
    have hno := hl.longest (first :: more) left (by rw [hto, ← hlf, cons_append]) hlen
    have hmo : Tidy first more := ⟨hti.unseparated, fun token ht =>
      hti.tokens token (hlf ▸ mem_append_left _ ht)⟩
    rw [joinAll_glue hmo] at hno
    exact lookup_eq_none.1 hno (h _ hmem).1
  obtain ⟨above, hab, hmem, hs⟩ : ∃ above, above <+: own ∧ glue first above ∈ files.authorizations ∧
      (glue first own ∈ files.authorizations → above = own) := by
    by_cases hp : glue first own ∈ files.authorizations
    · exact ⟨own, prefix_rfl, hp, fun _ => rfl⟩
    obtain ⟨directory, hd, ha⟩ := hpr.resolve_left hp
    obtain ⟨-, -, _, above, hti', rfl⟩ := h directory hd
    obtain ⟨rfl, hpre, -⟩ := (ancestor_glue hti' hown).1 ha
    exact ⟨above, hpre, hd, fun hp' => absurd hp' hp⟩
  rw [authorize, htr]
  cases hloo : files.authorizations.lookup (glue first (own ++ rest)) with
  | some callback =>
    have hw := hlo (own ++ rest) (prefix_append _ _) prefix_rfl (lookup_isSome.1 (by rw [hloo]; rfl))
    exact ⟨_, callback, rfl, .inl (by rw [hw])⟩
  | none =>
    have hne : above ≠ own ++ rest := by
      rintro rfl
      exact lookup_eq_none.1 hloo hmem
    have htu : (own ++ rest).length < (glue first (own ++ rest) ++ tail).length + 1 := by
      have hg := length_le_glue first (own ++ rest)
      have hr : (glue first (own ++ rest) ++ tail).length = (glue first (own ++ rest)).length + tail.length :=
        length_append
      omega
    obtain ⟨between, callback, hlow, hh, -, hc, hf⟩ :=
      climb_glue hmem (h _ hmem).2.1 hti hta hpl (hab.trans (prefix_append _ _)) hne htu
    refine ⟨glue first between, callback, hc, ?_⟩
    have hre : glue first between ∈ files.authorizations := lookup_isSome.1 (by rw [hf]; rfl)
    rcases prefix_or_prefix_of_prefix hh (prefix_append own rest) with hle | hge
    · by_cases heq : between = own
      · exact .inl (by rw [heq])
      refine .inr ⟨fun hp => heq ?_, (ancestor_glue ?_ hown).2 ⟨rfl, hle, heq⟩⟩
      · exact hle.eq_of_length_le (hs hp ▸ hlow).length_le
      · obtain ⟨_, hm⟩ := hle
        exact Tidy.left (hm ▸ hown)
    · exact .inl (by rw [hlo between hge hh hre])

/-- **No callback is bypassed**, for calls and requests without repeated separators. -/
theorem authorize_guards (calls : List (Call Callback)) (hcalls : ∀ call ∈ calls, call.Plain) (fs : FileSystem)
    (request : Text) (hrequest : Plain request) : Guarded fs (FilesProcess.after calls) request :=
  (Registered.after hcalls).guarded fs hrequest

def sandboxCalls : List (Call Unit) :=
  [.attach (plainSystem [place "/1/2/log"]) "/1/2".toList "/sandbox".toList (some ())]

theorem authorize_guards_sandbox :
    (FilesProcess.after sandboxCalls).resolve (plainSystem [place "/1/2/log"]) "/sandbox/log".toList =
      .ok (some (place "/1/2/log")) ∧
    Guarded (plainSystem [place "/1/2/log"]) (FilesProcess.after sandboxCalls) "/sandbox/log".toList := by
  have hcalls : ∀ call ∈ sandboxCalls, call.Plain := by
    have hplain : Plain (fromUri "/sandbox".toList) := by decide +kernel
    exact forall_mem_singleton.2 ⟨hplain, by decide⟩
  have hrequest : Plain "/sandbox/log".toList := by decide +kernel
  exact ⟨rfl, authorize_guards sandboxCalls hcalls (plainSystem [place "/1/2/log"]) _ hrequest⟩

/-- The same file behind two leading separators is given out without asking. -/
theorem authorize_bypassed :
    ¬ Guarded (plainSystem [place "/1/2/log"]) (FilesProcess.after sandboxCalls) "//sandbox/log".toList := by
  intro hguarded
  obtain ⟨front, rest, hlong, hfront, -⟩ := longest_of_search
    (show (after sandboxCalls).search (tokens "//sandbox/log".toList).reverse [] =
      some ("/sandbox".toList, place "/1/2", "log".toList) from rfl)
  have hregistered : joinAll front ∈ (after sandboxCalls).authorizations := by
    rw [← hfront]
    decide
  obtain ⟨asked, callback, hasked, -⟩ :=
    hguarded front rest (place "/1/2") (place "/1/2/log") hlong rfl (.inl hregistered)
  exact nomatch hasked

end Clusterd.Files
