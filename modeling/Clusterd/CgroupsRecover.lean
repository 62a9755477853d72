import Clusterd.CgroupsPaths
import Mathlib.Data.List.Infix
/-!
# Containers recovered from their cgroups (cgroups v2)

`containerId` cuts one trailing `leaf` off, skips every `mesos` and refuses names that end in `agent`
(`containerId_cgroup`).  So it reads back the cgroups of containers with ordinary names, and takes nearly every cgroup
that a container has made below its leaf cgroup for a nested container.
-/
namespace Clusterd.Cgroups

open Stout Stout.Strings Stout.Path List ContainerId Hierarchy

/-! ## Texts of cgroups -/

def Named (names : List Text) : Prop := ∀ name ∈ names, name ≠ [] ∧ separator ∉ name

variable {names : List Text}

theorem Named.left {more : List Text} (h : Named (names ++ more)) : Named names :=
  fun name hna => h name (mem_append_left _ hna)

def glueAll : List Text → Text
  | [] => []
  | name :: names => glue name names

theorem cgroup_eq (root : Text) (hne : names ≠ []) :
    cgroup root names = trim (join root (glueAll names)) [separator] := by
  cases names with
  | nil => exact absurd rfl hne
  | cons => rfl

theorem Named.tidy {name : Text} (h : Named (name :: names)) : Tidy name names :=
  ⟨(h name mem_cons_self).2, fun token ht => h token (mem_cons_of_mem _ ht)⟩

theorem glueAll_concat (hne : names ≠ []) (name : Text) :
    glueAll (names ++ [name]) = glueAll names ++ separator :: name := by
  cases names with
  | nil => exact absurd rfl hne
  | cons first names => exact glue_concat first names name

theorem Named.ends (h : Named names) (hne : names ≠ []) :
    (∃ c rest, c ≠ separator ∧ glueAll names = c :: rest) ∧ Open (glueAll names) := by
  cases names with
  | nil => exact absurd rfl hne
  | cons name =>
    obtain ⟨hna, hsep⟩ := h name mem_cons_self
    refine ⟨?_, h.tidy.open⟩
    cases name with
    | nil => exact absurd rfl hna
    | cons c name => exact ⟨c, name ++ _, fun heq => hsep (heq ▸ mem_cons_self), rfl⟩

variable {text : Text}

theorem rdropWhile_sep (h : Open text) : text.rdropWhile (fun c => decide (c ∈ [separator])) = text := by
  rcases eq_nil_or_concat' text with rfl | ⟨before, c, rfl⟩
  · exact rdropWhile_nil _
  refine rdropWhile_concat_neg _ _ c ?_
  have hc : c ≠ separator := by
    rintro rfl
    exact h before rfl
  simpa using hc

theorem head_dropWhile_sep {rest : Text} {c : Char}
    (h : text.dropWhile (fun c => decide (c ∈ [separator])) = c :: rest) : c ≠ separator := by
  have hh := head?_dropWhile_not (fun c => decide (c ∈ [separator])) text
  rw [h] at hh
  simpa using hh

theorem open_rdropWhile_sep (text : Text) : Open (text.rdropWhile fun c => decide (c ∈ [separator])) := by
  intro _ heq
  rw [rdropWhile, reverse_eq_iff, reverse_concat] at heq
  exact head_dropWhile_sep heq rfl

theorem trim_ends (text : Text) :
    (∀ c rest, trim text [separator] = c :: rest → c ≠ separator) ∧ Open (trim text [separator]) := by
  refine ⟨fun c _ heq => ?_, open_rdropWhile_sep _⟩
  obtain ⟨_, hm⟩ := rdropWhile_prefix (fun c => decide (c ∈ [separator]))
    (text.dropWhile fun c => decide (c ∈ [separator]))
  rw [show rdropWhile _ _ = trim text [separator] from rfl, heq] at hm
  exact head_dropWhile_sep hm.symm

theorem open_append {front : Text} (hne : text ≠ []) (h : Open text) : Open (front ++ text) := by
  obtain ⟨start, c, rfl⟩ := (eq_nil_or_concat' text).resolve_left hne
  intro _ heq
  rw [← append_assoc] at heq
  have hc : c = separator := singleton_inj.1 (append_inj_right' heq rfl)
  exact h start (by rw [hc])

def Blank (text : Text) : Prop := ∀ c ∈ text, c = separator

theorem trim_split (text : Text) :
    ∃ before after, Blank before ∧ Blank after ∧ text = before ++ (trim text [separator] ++ after) := by
  refine ⟨text.takeWhile fun c => decide (c ∈ [separator]),
    (text.dropWhile fun c => decide (c ∈ [separator])).rtakeWhile fun c => decide (c ∈ [separator]), ?_, ?_, ?_⟩
  · intro c hc
    simpa using mem_takeWhile_imp hc
  · intro _ hc
    simpa using mem_rtakeWhile_imp hc
  · rw [trim, rdropWhile_append_rtakeWhile, takeWhile_append_dropWhile]

/-- **What is left of a text without the separators around it.** -/
theorem trim_eq {before core after : Text} (hb : Blank before) (haf : Blank after)
    (hh : ∀ c rest, core = c :: rest → c ≠ separator) (hl : Open core) :
    trim (before ++ (core ++ after)) [separator] = core := by
  have hdr : (before ++ (core ++ after)).dropWhile (fun c => decide (c ∈ [separator])) =
      (core ++ after).dropWhile fun c => decide (c ∈ [separator]) :=
    dropWhile_append_of_pos fun c hc => by simpa using hb c hc
  cases core with
  | nil =>
    have hnil : (([] : Text) ++ after).dropWhile (fun c => decide (c ∈ [separator])) = [] :=
      dropWhile_eq_nil_iff.2 fun c hc => by simpa using haf c hc
    rw [trim, hdr, hnil]
    exact rdropWhile_nil _
  | cons c core =>
    have hc := hh c core rfl
    rw [trim, hdr, cons_append, dropWhile_cons_of_neg (by simpa using hc), ← cons_append]
    rw [rdropWhile, reverse_append, dropWhile_append_of_pos (fun d hd => by
      simpa using haf d (mem_reverse.1 hd)), ← rdropWhile, rdropWhile_sep hl]

theorem trim_trim (text : Text) : trim (trim text [separator]) [separator] = trim text [separator] := by
  have h := @trim_eq [] (trim text [separator]) [] (forall_mem_nil _) (forall_mem_nil _) (trim_ends text).1
    (trim_ends text).2
  rwa [nil_append, append_nil] at h

theorem join_front (root : Text) : ∃ front, removeSuffix root [separator] ++ [separator] = front ∧ ¬ Open front ∧
    trim front [separator] = trim root [separator] := by
  refine ⟨_, rfl, fun h => h _ rfl, ?_⟩
  obtain ⟨before, after, hb, haf, hr⟩ := trim_split root
  by_cases ho : Open root
  · have haf' : Blank (after ++ [separator]) := forall_mem_append.2 ⟨haf, forall_mem_singleton.2 rfl⟩
    have heq : root ++ [separator] = before ++ (trim root [separator] ++ (after ++ [separator])) := by
      conv_lhs => rw [hr]
      simp
    rw [removeSuffix_open ho, heq, trim_eq hb haf' (trim_ends root).1 (trim_ends root).2]
  · obtain ⟨start, hs⟩ : ∃ start, root = start ++ [separator] := by
      simpa [Open] using ho
    rw [hs, removeSuffix_closed]

/-- **A cgroup's text is the trimmed root, separators and the names.** -/
theorem cgroup_text (root : Text) : ∃ gap, Blank gap ∧ (trim root [separator] = [] ↔ gap = []) ∧
    ∀ {names : List Text}, Named names → names ≠ [] →
      cgroup root names = trim root [separator] ++ (gap ++ glueAll names) := by
  obtain ⟨front, hf, hcl, htr⟩ := join_front root
  obtain ⟨before, after, hbe, haf, heq⟩ := trim_split front
  rw [htr] at heq
  have hj : ∀ {names : List Text}, Named names → names ≠ [] →
      cgroup root names = trim (before ++ (trim root [separator] ++ after) ++ glueAll names) [separator] := by
    intro names h hne
    obtain ⟨⟨c, rest, hc, hb⟩, -⟩ := h.ends hne
    have hbp : removePrefix (glueAll names) [separator] = glueAll names := by
      rw [removePrefix, if_neg]
      rw [List.isPrefixOf_iff_prefix, hb, cons_prefix_cons]
      exact fun heq => hc heq.1.symm
    rw [cgroup_eq root hne, ← heq, ← hf, join, hbp, append_assoc, singleton_append]
  by_cases hr : trim root [separator] = []
  · -- Nothing but separators stands in front of the names.
    refine ⟨[], forall_mem_nil _, iff_of_true hr rfl, @fun names h hne => ?_⟩
    obtain ⟨⟨c, rest, hc, hb⟩, ho⟩ := h.ends hne
    have hbl : Blank (before ++ after) := forall_mem_append.2 ⟨hbe, haf⟩
    have hbs : ∀ d more, glueAll names = d :: more → d ≠ separator := by
      intro d more hd
      rw [hb] at hd
      exact (cons.inj hd).1 ▸ hc
    have ht := trim_eq hbl (forall_mem_nil _) hbs ho
    rw [append_nil] at ht
    rw [hj h hne, hr, nil_append, nil_append, nil_append, ht]
  · have hgap : after ≠ [] := by
      rintro rfl
      rw [append_nil] at heq
      exact hcl (heq ▸ open_append hr (trim_ends root).2)
    refine ⟨after, haf, iff_of_false hr hgap, @fun names h hne => ?_⟩
    obtain ⟨⟨_, _, _, hb⟩, ho⟩ := h.ends hne
    have hco : ∀ d more, trim root [separator] ++ (after ++ glueAll names) = d :: more → d ≠ separator := by
      intro _ _ hd
      obtain ⟨e, tail, he⟩ := exists_cons_of_ne_nil hr
      rw [he] at hd
      exact (cons.inj hd).1 ▸ (trim_ends root).1 e tail he
    have hl : Open (trim root [separator] ++ (after ++ glueAll names)) := by
      rw [← append_assoc]
      exact open_append (by rw [hb]; exact cons_ne_nil _ _) ho
    have ht := trim_eq hbe (forall_mem_nil _) hco hl
    rw [append_nil] at ht
    rw [hj h hne, append_assoc, append_assoc, ht]

/-! ## Reading a cgroup's text -/

theorem tokenize_blank {gap : Text} (hgap : Blank gap) (text : Text) :
    tokenize (gap ++ text) separator = tokenize text separator := by
  induction gap with
  | nil => rfl
  | cons c gap ih =>
    obtain rfl : c = separator := hgap c mem_cons_self
    have hs := splitOn_append_cons_self (a := separator) [] (gap ++ text)
    rw [nil_append] at hs
    rw [← ih fun d hd => hgap d (mem_cons_of_mem _ hd), cons_append, tokenize, hs]
    rfl

theorem tokenize_glueAll (h : Named names) : tokenize (glueAll names) separator = names := by
  cases names with
  | nil => rfl
  | cons =>
    rw [glueAll, tokenize, splitOn_glue h.tidy.unseparated fun token ht => (h.tidy.tokens token ht).2]
    refine filter_eq_self.2 fun token ht => ?_
    simpa using (h token ht).1

theorem last_part_inj {front front' last last' : Text} (h : separator ∉ last) (h' : separator ∉ last')
    (heq : front ++ separator :: last = front' ++ separator :: last') : front = front' ∧ last = last' := by
  rcases append_eq_append_iff.1 heq with ⟨more, rfl, hl⟩ | ⟨more, rfl, hl⟩
  · cases more with
    | nil => exact ⟨(append_nil _).symm, (cons.inj hl).2⟩
    | cons =>
      exact absurd ((cons.inj hl).2 ▸ mem_append_right _ mem_cons_self) h
  · cases more with
    | nil => exact ⟨append_nil _, (cons.inj hl).2.symm⟩
    | cons =>
      exact absurd ((cons.inj hl).2 ▸ mem_append_right _ mem_cons_self) h'

theorem removeSuffix_append (text tail : Text) : removeSuffix (text ++ tail) tail = text := by
  rw [removeSuffix]
  simp

def tokensOf (root : Text) (names : List Text) : List Text :=
  if names.getLast? = some leafName ∧ (trim root [separator] = [] → names ≠ [leafName]) then names.dropLast else names

theorem tokensOf_leaf {root : Text} (h : trim root [separator] = [] → names ≠ []) :
    tokensOf root (names ++ [leafName]) = names := by
  rw [tokensOf, if_pos, dropLast_concat]
  exact ⟨getLast?_concat, fun hr heq => h hr (append_left_eq_self.1 heq)⟩

theorem tokensOf_concat {root last : Text} (h : last = leafName → trim root [separator] = [] ∧ names = []) :
    tokensOf root (names ++ [last]) = names ++ [last] := by
  rw [tokensOf, if_neg]
  rintro ⟨hl, hnot⟩
  obtain rfl : last = leafName := Option.some.inj (getLast?_concat.symm.trans hl)
  obtain ⟨hr, rfl⟩ := h rfl
  exact hnot hr rfl

def parse (tokens : List Text) : Option ContainerId :=
  if tokens.length = 0 then none
  else if tokens.getLast? = some agentName then none
  else tokens.foldl descend none

theorem cgroup_concat (root : Text) {last : Text} (h : Named (names ++ [last])) :
    trim root [separator] = [] ∧ names = [] ∧ cgroup root (names ++ [last]) = last ∨
    ¬ (trim root [separator] = [] ∧ names = []) ∧ ∃ gap, Blank gap ∧
      cgroup root (names ++ [last]) = (trim root [separator] ++ (gap ++ glueAll names)) ++ separator :: last := by
  obtain ⟨gap, hgap, hb, ht⟩ := cgroup_text root
  replace ht := ht h (by simp)
  by_cases hn : names = []
  · subst hn
    rw [ht]
    by_cases hr : trim root [separator] = []
    · refine .inl ⟨hr, rfl, ?_⟩
      rw [hr, hb.1 hr]
      exact glue_nil last
    · obtain ⟨start, c, rfl⟩ := (eq_nil_or_concat' gap).resolve_left (mt hb.2 hr)
      obtain rfl : c = separator := hgap c (by simp)
      refine .inr ⟨fun h => hr h.1, start, fun d hd => hgap d (mem_append_left _ hd), ?_⟩
      simp [glueAll, glue_nil]
  · refine .inr ⟨fun h => hn h.2, gap, hgap, ?_⟩
    rw [ht, glueAll_concat hn]
    simp

/-- **What is read back from a cgroup.** -/
theorem containerId_cgroup (root : Text) (h : Named names) (hne : names ≠ []) :
    containerId root (cgroup root names) = parse (tokensOf root names) := by
  have hle : separator ∉ leafName := by decide
  -- It is enough to see what is left without the trailing `leaf`.
  suffices hs : Named (tokensOf root names) ∧ ∃ gap, Blank gap ∧
      removeSuffix (cgroup root names) (separator :: leafName) =
        trim root [separator] ++ (gap ++ glueAll (tokensOf root names)) by
    obtain ⟨hto, gap, hgap, heq⟩ := hs
    have htr : trim (cgroup root names) [separator] = cgroup root names := by
      rw [cgroup_eq root hne, trim_trim]
    have hre : tokenize (removePrefix (removeSuffix (trim (cgroup root names) [separator]) (separator :: leafName))
        (trim root [separator])) separator = tokensOf root names := by
      rw [htr, heq, removePrefix, if_pos (List.isPrefixOf_iff_prefix.2 (prefix_append _ _)),
        drop_left, tokenize_blank hgap, tokenize_glueAll hto]
    rw [containerId, hre, parse]
  obtain ⟨_, last, rfl⟩ := (eq_nil_or_concat' names).resolve_left hne
  have hln := h last (mem_append_right _ mem_cons_self)
  rcases cgroup_concat root h with ⟨hr, rfl, ht⟩ | ⟨hnot, gap, hgap, ht⟩
  · -- The text is the one name, in which there is no separator to cut at.
    have hsa : removeSuffix last (separator :: leafName) = last := by
      rw [removeSuffix, if_neg]
      rw [isSuffixOf_iff_suffix]
      rintro ⟨before, rfl⟩
      exact hln.2 (mem_append_right _ mem_cons_self)
    rw [tokensOf_concat fun _ => ⟨hr, rfl⟩, ht, hsa, hr]
    exact ⟨h, [], forall_mem_nil _, (glue_nil last).symm⟩
  · by_cases hl : last = leafName
    · subst hl
      rw [tokensOf_leaf fun hr hf => hnot ⟨hr, hf⟩, ht, removeSuffix_append]
      exact ⟨h.left, gap, hgap, rfl⟩
    rw [tokensOf_concat fun h => absurd h hl]
    refine ⟨h, ?_⟩
    obtain ⟨gap', hgap', -, ht'⟩ := cgroup_text root
    refine ⟨gap', hgap', ?_⟩
    rw [removeSuffix, if_neg, ht' h (by simp)]
    rw [ht, isSuffixOf_iff_suffix]
    rintro ⟨_, heq⟩
    exact hl (last_part_inj hle hln.2 heq).2.symm

/-! ## The names of containers -/

theorem validateID_none {id : Text} (h : validateID id = none) : id ≠ [] ∧ separator ∉ id := by
  unfold validateID at h
  split_ifs at h with he hl hd hi
  refine ⟨he, fun hmem => hi ?_⟩
  exact any_eq_true.2 ⟨separator, hmem, by decide⟩

theorem validateValue_none {value : Text} (h : validateValue value = none) : value ≠ [] ∧ separator ∉ value := by
  unfold validateValue at h
  cases hid : validateID value with
  | some =>
    rw [hid] at h
    exact nomatch h
  | none => exact validateID_none hid

theorem ContainerId.names_ne_nil : ∀ id : ContainerId, id.names ≠ []
  | .top _ => cons_ne_nil _ _
  | .nested _ _ => by simp [names]

theorem ContainerId.names_concat : ∀ id : ContainerId, ∃ front, id.names = front ++ [id.value]
  | .top _ => ⟨[], rfl⟩
  | .nested parent value => ⟨parent.names ++ [cgroupSeparator], by simp [ContainerId.names, ContainerId.value]⟩

theorem named_names : ∀ {id : ContainerId}, validateContainerId id = none → Named id.names
  | .top value, h => by
    intro name hna
    rw [mem_singleton.1 hna]
    exact validateValue_none h
  | .nested parent value, h => by
    rw [validateContainerId] at h
    cases hv : validateValue value with
    | some =>
      rw [hv] at h
      exact nomatch h
    | none =>
      rw [hv] at h
      exact forall_mem_append.2 ⟨named_names (Option.map_eq_none_iff.1 h),
        forall_mem_cons.2 ⟨by decide, forall_mem_singleton.2 (validateValue_none hv)⟩⟩

theorem join_names (h : Named names) (hne : names ≠ []) {name : Text} (hna : name ≠ [])
    (hsep : separator ∉ name) : join (glueAll names) name = glueAll (names ++ [name]) := by
  cases names with
  | nil => exact absurd rfl hne
  | cons first =>
    exact join_glue ⟨(h first mem_cons_self).2,
      forall_mem_append.2 ⟨(forall_mem_cons.1 h).2, forall_mem_singleton.2 ⟨hna, hsep⟩⟩⟩

/-- **The path built for a container is its names.** -/
theorem buildPath_names : ∀ {id : ContainerId}, Named id.names → buildPath cgroupSeparator id = glueAll id.names
  | .top value, _ => (glue_nil value).symm
  | .nested parent value, h => by
    have hpa : Named parent.names := h.left
    have hv := h value (by simp [names])
    have hin : join cgroupSeparator value = cgroupSeparator ++ separator :: value := by
      have hj := @join_names [cgroupSeparator] (forall_mem_singleton.2 (by decide)) (cons_ne_nil _ _) value hv.1 hv.2
      rwa [glueAll_concat (cons_ne_nil _ _), show glueAll [cgroupSeparator] = cgroupSeparator from rfl] at hj
    have hpr : removePrefix (cgroupSeparator ++ separator :: value) [separator] =
        cgroupSeparator ++ separator :: value := if_neg (by simp [cgroupSeparator, separator])
    rw [buildPath, buildPath_names hpa, hin, join, removeSuffix_open (hpa.ends parent.names_ne_nil).2, hpr,
      names, show parent.names ++ [cgroupSeparator, value] = parent.names ++ [cgroupSeparator] ++ [value] from by
        simp, glueAll_concat (by simp), glueAll_concat parent.names_ne_nil]
    simp

theorem trim_container (root : Text) {id : ContainerId} (h : Named id.names) (leaf : Bool) :
    trim (container root id leaf) [separator] = cgroup root (id.names ++ if leaf then [leafName] else []) := by
  rw [cgroup_eq root (by simp [id.names_ne_nil]), container, buildPath_names h]
  cases leaf with
  | false => simp
  | true =>
    rw [if_pos rfl, if_pos rfl, join_names h id.names_ne_nil (by decide) (by decide)]

theorem containerId_trim (root text : Text) : containerId root text = containerId root (trim text [separator]) := by
  rw [containerId, containerId, trim_trim]

/-! ## Ancestors -/

inductive Above (above : ContainerId) : ContainerId → Prop where
  | self : Above above above
  | up {parent : ContainerId} (value : Text) : Above above parent → Above above (.nested parent value)

variable {above id : ContainerId}

theorem Above.next (h : Above above id) : above = id ∨ ∃ value, Above (.nested above value) id := by
  induction h with
  | self => exact .inl rfl
  | up value _ ih =>
    rcases ih with rfl | ⟨value', h'⟩
    · exact .inr ⟨value, .self⟩
    · exact .inr ⟨value', .up value h'⟩

theorem Above.names_prefix (h : Above above id) : above.names <+: id.names := by
  induction h with
  | self => exact prefix_rfl
  | up _ _ ih => exact ih.trans (prefix_append _ _)

theorem foldl_descend_above : ∀ (tokens : List Text) (id : ContainerId),
    ∃ result, tokens.foldl descend (some id) = some result ∧ Above id result
  | [], id => ⟨id, rfl, .self⟩
  | token :: tokens, id => by
    rw [foldl_cons, descend]
    split
    · exact foldl_descend_above tokens id
    obtain ⟨result, hr, ha⟩ := foldl_descend_above tokens (.nested id token)
    refine ⟨result, hr, ?_⟩
    clear hr
    induction ha with
    | self => exact .up token .self
    | up value _ ih => exact .up value ih

def ContainerId.depth : ContainerId → Nat
  | .top _ => 1
  | .nested parent _ => parent.depth + 1

theorem depth_foldl_descend : ∀ (tokens : List Text) (current : Option ContainerId),
    ((tokens.foldl descend current).map depth).getD 0 =
      (current.map depth).getD 0 + tokens.countP (· ≠ cgroupSeparator)
  | [], current => rfl
  | token :: tokens, current => by
    rw [foldl_cons, depth_foldl_descend tokens]
    by_cases ht : token = cgroupSeparator
    · simp [descend, ht]
    · cases current with
      | none | some => simp [descend, ht, depth]; omega

theorem countP_front_lt : ∀ {id : ContainerId} {front : List Text}, id.names = front ++ [id.value] →
    front.countP (· ≠ cgroupSeparator) < id.depth
  | .top value, front, h => by
    have hf : front = [] := append_left_eq_self.1 h.symm
    rw [hf]
    exact Nat.zero_lt_one
  | .nested parent value, front, h => by
    obtain ⟨before, hb⟩ := parent.names_concat
    have hpa := countP_front_lt hb
    have hf : front = before ++ [parent.value] ++ [cgroupSeparator] := by
      have hsp : (nested parent value).names = parent.names ++ [cgroupSeparator] ++ [value] := by
        simp [names]
      rw [← hb]
      exact (append_inj' (h.symm.trans hsp) rfl).1
    have hv := countP_le_length (p := fun name => decide (name ≠ cgroupSeparator)) (l := [parent.value])
    have hs : [cgroupSeparator].countP (fun name => decide (name ≠ cgroupSeparator)) = 0 := by decide
    rw [hf, countP_append, countP_append, depth]
    simp only [length_singleton] at hv
    omega

/-- **The loop reads the names of a container back**, if none of its values is the separator. -/
theorem foldl_descend_names : ∀ {id : ContainerId}, (∀ above, Above above id → above.value ≠ cgroupSeparator) →
    id.names.foldl descend none = some id
  | .top value, h => by
    have hv : value ≠ cgroupSeparator := h _ .self
    rw [names, foldl_cons, descend, if_neg hv, foldl_nil]
  | .nested parent value, h => by
    have hv : value ≠ cgroupSeparator := h _ .self
    have hpa := foldl_descend_names fun above ha => h above (.up value ha)
    rw [names, foldl_append, hpa]
    simp [descend, hv]

/-! ## What the launcher recovers -/

def Hierarchy.own (hierarchy : Hierarchy) (id : ContainerId) : List (List Text) :=
  [id.names, id.names ++ [leafName], id.names ++ [cgroupSeparator]] ++
    (hierarchy.further.filter fun made => made.1 = id).map fun made => made.1.names ++ leafName :: made.2

/-- The cgroups killed by a sequence of calls to `destroy`. -/
def destroyAll (root : Text) (cgroups : List Text) : Launcher → List ContainerId → List Text
  | _, [] => []
  | containers, id :: ids =>
    (destroy root cgroups containers id).2 ++ destroyAll root cgroups (destroy root cgroups containers id).1 ids

structure Recognised (root : Text) (hierarchy : Hierarchy) : Prop where
  /-- The ID is read back from both cgroups of a container. -/
  inverse : ∀ id ∈ hierarchy.containers, ∀ leaf, containerId root (container root id leaf) = some id
  known : ∀ id, id ∈ recoverContainersFromCgroups2 root (hierarchy.cgroups root) ↔ id ∈ hierarchy.containers
  orphans : ∀ states id, id ∈ (recover root (hierarchy.cgroups root) states).2 ↔
    id ∈ hierarchy.containers ∧ id ∉ states
  /-- Destroying orphans, in any order and as often as one likes, kills no cgroup of a checkpointed container. -/
  spared : ∀ states destroyed, (∀ id ∈ destroyed, id ∈ (recover root (hierarchy.cgroups root) states).2) →
    ∀ id ∈ hierarchy.containers, id ∈ states → ∀ names ∈ hierarchy.own id, cgroup root names ∉
      destroyAll root (hierarchy.cgroups root) (recover root (hierarchy.cgroups root) states).1 destroyed

/-- The container is not called like a cgroup of the agent: `leaf` is only fine for a top-level container directly under
the root of all cgroups. -/
def Ordinary (root : Text) (id : ContainerId) : Prop :=
  id.value ≠ agentName ∧ id.value ≠ cgroupSeparator ∧
    (id.value = leafName → trim root [separator] = [] ∧ ∃ value, id = .top value)

/-- The names below a leaf cgroup end with `agent`, or with `leaf` directly below that. -/
def Ignored (names : List Text) : Prop := names.getLast? = some agentName ∨ ∃ front, names = front ++ [agentName, leafName]

variable {root : Text} {hierarchy : Hierarchy}

theorem Hierarchy.named (hierarchy : Hierarchy) (h : id ∈ hierarchy.containers) : Named id.names :=
  named_names (hierarchy.valid id h)

theorem Hierarchy.above_mem (hierarchy : Hierarchy) (h : Above above id)
    (hid : id ∈ hierarchy.containers) : above ∈ hierarchy.containers := by
  induction h with
  | self => exact hid
  | up value _ ih => exact ih (hierarchy.closed _ value hid)

theorem mem_foldl_recoverCgroup : ∀ {cgroups : List Text} {containers : Launcher},
    id ∈ cgroups.foldl (recoverCgroup root) containers ↔
      id ∈ containers ∨ ∃ cgroup ∈ cgroups, containerId root cgroup = some id
  | [], _ => by simp
  | cgroup :: cgroups, containers => by
    rw [foldl_cons, mem_foldl_recoverCgroup, exists_mem_cons_iff, recoverCgroup]
    cases containerId root cgroup with
    | none => simp
    | some found =>
      rw [mem_insert_iff, Option.some.injEq, eq_comm, or_comm (a := found = id), or_assoc]

variable {cgroups : List Text}

theorem mem_recoverContainers :
    id ∈ recoverContainersFromCgroups2 root cgroups ↔ ∃ cgroup ∈ cgroups, containerId root cgroup = some id := by
  rw [recoverContainersFromCgroups2, mem_foldl_recoverCgroup]
  simp

theorem mem_foldl_insert : ∀ {states : List ContainerId} {containers : Launcher},
    id ∈ states.foldl (fun containers id => containers.insert id) containers ↔ id ∈ containers ∨ id ∈ states
  | [], _ => by simp
  | state :: states, containers => by
    rw [foldl_cons, mem_foldl_insert, mem_insert_iff, mem_cons]
    tauto

theorem mem_recover {states : List ContainerId} :
    (id ∈ (recover root cgroups states).1 ↔ id ∈ recoverContainersFromCgroups2 root cgroups ∨ id ∈ states) ∧
      (id ∈ (recover root cgroups states).2 ↔ id ∈ recoverContainersFromCgroups2 root cgroups ∧ id ∉ states) := by
  rw [recover]
  rw [mem_filter, mem_foldl_insert, decide_eq_true_iff]
  exact ⟨.rfl, by tauto⟩

theorem names_tokens_ordinary (h : Ordinary root id) : tokensOf root id.names = id.names := by
  obtain ⟨_, hf⟩ := id.names_concat
  rw [hf, tokensOf_concat]
  intro hl
  obtain ⟨hr, _, rfl⟩ := h.2.2 hl
  exact ⟨hr, append_left_eq_self.1 hf.symm⟩

theorem parse_ordinary (h : ∀ above, Above above id → Ordinary root above) :
    parse id.names = some id ∧ parse (id.names ++ [cgroupSeparator]) = some id := by
  have hf := foldl_descend_names fun above ha => (h above ha).2.1
  obtain ⟨_, hfr⟩ := id.names_concat
  constructor
  · rw [parse, if_neg (by simp [id.names_ne_nil]), if_neg, hf]
    rw [hfr, getLast?_concat]
    exact fun heq => (h id .self).1 (Option.some.inj heq)
  · rw [parse, if_neg (by simp), if_neg, foldl_append, hf]
    · simp [descend]
    · rw [getLast?_concat]
      decide

/-- **Both cgroups of an ordinary container are read back.** -/
theorem inverse_of_ordinary (hn : Named id.names) (h : ∀ above, Above above id → Ordinary root above)
    (leaf : Bool) : containerId root (container root id leaf) = some id := by
  rw [containerId_trim, trim_container root hn]
  cases leaf with
  | false =>
    have he : id.names ++ (if false = true then [leafName] else []) = id.names := append_nil _
    rw [he, containerId_cgroup root hn id.names_ne_nil, names_tokens_ordinary (h id .self), (parse_ordinary h).1]
  | true =>
    have hl : Named (id.names ++ [leafName]) :=
      forall_mem_append.2 ⟨hn, forall_mem_singleton.2 (by decide)⟩
    rw [if_pos rfl, containerId_cgroup root hl (by simp), tokensOf_leaf fun _ => id.names_ne_nil, (parse_ordinary h).1]

/-- **A container whose non-leaf cgroup is read back is an ordinary one.** -/
theorem ordinary_of_inverse (hn : Named id.names)
    (h : containerId root (container root id false) = some id) : Ordinary root id := by
  have hpa : parse (tokensOf root id.names) = some id := by
    rw [containerId_trim, trim_container root hn] at h
    have he : id.names ++ (if false = true then [leafName] else []) = id.names := append_nil _
    rwa [he, containerId_cgroup root hn id.names_ne_nil] at h
  -- The tokens read must have as many values as the ID.
  have hr : (tokensOf root id.names).foldl descend none = some id ∧
      (tokensOf root id.names).getLast? ≠ some agentName := by
    unfold parse at hpa
    split_ifs at hpa with hz ha
    exact ⟨hpa, ha⟩
  have hd := depth_foldl_descend (tokensOf root id.names) none
  rw [hr.1] at hd
  simp only [Option.map_some, Option.getD_some, Option.map_none, Option.getD_none, Nat.zero_add] at hd
  obtain ⟨front, hf⟩ := id.names_concat
  have hfew := countP_front_lt hf
  have hla : id.names.getLast? = some id.value := by rw [hf, getLast?_concat]
  have hw : id.value ≠ leafName → tokensOf root id.names = id.names := by
    intro hl
    rw [hf, tokensOf_concat fun h => absurd h hl]
  refine ⟨fun ha => ?_, fun hs => ?_, fun hl => ?_⟩
  · rw [hw (by rw [ha]; decide), hla, ha] at hr
    exact hr.2 rfl
  · rw [hw (by rw [hs]; decide), hf, hs, countP_append] at hd
    have hz : [cgroupSeparator].countP (fun name => decide (name ≠ cgroupSeparator)) = 0 := by decide
    omega
  by_contra hnot
  have hcut : tokensOf root id.names = front := by
    rw [hf, hl, tokensOf_leaf]
    rintro hro rfl
    cases id with
    | top value => exact hnot ⟨hro, value, rfl⟩
    | nested =>
      have hlen := congrArg length hf
      simp [names] at hlen
  rw [hcut] at hd
  omega

/-! ## Cgroups made by containers -/

theorem named_further (hierarchy : Hierarchy) {made : ContainerId × List Text} (h : made ∈ hierarchy.further) :
    Named (made.1.names ++ leafName :: made.2) := by
  obtain ⟨hmem, -, hn⟩ := hierarchy.further_mem made h
  exact forall_mem_append.2 ⟨hierarchy.named hmem, forall_mem_cons.2 ⟨by decide, hn⟩⟩

theorem parse_below (tokens : List Text) (ho : ∀ above, Above above id → Ordinary root above) :
    tokens.getLast? = some agentName ∧ parse (id.names ++ leafName :: tokens) = none ∨
    tokens.getLast? ≠ some agentName ∧ ∃ result, parse (id.names ++ leafName :: tokens) = some result ∧
      Above (.nested id leafName) result := by
  have hf := foldl_descend_names fun above hab => (ho above hab).2.1
  have hl : (id.names ++ leafName :: tokens).getLast? = some agentName ↔ tokens.getLast? = some agentName := by
    rcases eq_nil_or_concat' tokens with rfl | ⟨front, last, rfl⟩
    · rw [getLast?_concat]
      exact iff_of_false (by decide) nofun
    · rw [← cons_append, ← append_assoc, getLast?_concat, getLast?_concat]
  rw [parse, if_neg (by simp)]
  by_cases ha : tokens.getLast? = some agentName
  · exact .inl ⟨ha, if_pos (hl.2 ha)⟩
  · refine .inr ⟨ha, ?_⟩
    rw [if_neg (mt hl.1 ha), foldl_append, hf]
    exact foldl_descend_above tokens (.nested id leafName)

/-- **A cgroup below a leaf cgroup is taken for a nested container**, unless its name is ignored. -/
theorem containerId_further (hne : names ≠ [])
    (hn : Named (id.names ++ leafName :: names)) (ho : ∀ above, Above above id → Ordinary root above) :
    Ignored names ∧ containerId root (cgroup root (id.names ++ leafName :: names)) = none ∨
    ¬ Ignored names ∧ ∃ result, containerId root (cgroup root (id.names ++ leafName :: names)) = some result ∧
      Above (.nested id leafName) result := by
  rw [containerId_cgroup root hn (by simp)]
  obtain ⟨front, last, rfl⟩ := (eq_nil_or_concat' names).resolve_left hne
  have hc : id.names ++ leafName :: (front ++ [last]) = (id.names ++ leafName :: front) ++ [last] := by simp
  by_cases hl : last = leafName
  · subst hl
    have ht : tokensOf root (id.names ++ leafName :: (front ++ [leafName])) = id.names ++ leafName :: front := by
      rw [hc, tokensOf_leaf fun _ => by simp]
    have hi : Ignored (front ++ [leafName]) ↔ front.getLast? = some agentName := by
      rw [Ignored, getLast?_concat]
      constructor
      · rintro (h | ⟨before, h⟩)
        · exact nomatch h
        · have hs : before ++ [agentName, leafName] = before ++ [agentName] ++ [leafName] := by simp
          rw [(append_inj' (h.trans hs) rfl).1, getLast?_concat]
      · intro h
        obtain ⟨before, hb⟩ := getLast?_eq_some_iff.1 h
        exact .inr ⟨before, by rw [hb]; simp⟩
    rw [ht, hi]
    exact parse_below front ho
  · have ht : tokensOf root (id.names ++ leafName :: (front ++ [last])) = id.names ++ leafName :: (front ++ [last]) := by
      rw [hc, tokensOf_concat fun h => absurd h hl]
    have hi : Ignored (front ++ [last]) ↔ (front ++ [last]).getLast? = some agentName := by
      refine or_iff_left ?_
      rintro ⟨before, h⟩
      have hs : before ++ [agentName, leafName] = before ++ [agentName] ++ [leafName] := by simp
      exact hl (singleton_inj.1 (append_inj' (h.trans hs) rfl).2)
    rw [ht, hi]
    exact parse_below (front ++ [last]) ho

/-! ## Destroying orphans -/

/-- **A killed cgroup is the one destroyed or lies below it.** -/
theorem prefix_of_killed {names' : List Text} (hne : names ≠ []) (h : Named names)
    (hne' : names' ≠ []) (h' : Named names') (hk : cgroup root names' ∈ killed (cgroup root names) cgroups) :
    names <+: names' := by
  obtain ⟨_, -, -, ht⟩ := cgroup_text root
  unfold killed at hk
  split at hk
  · obtain ⟨-, hk⟩ := mem_filter.1 hk
    rw [ht h hne, ht h' hne', decide_eq_true_iff, startsWith, isPrefixOf_iff_prefix] at hk
    rcases hk with heq | ⟨more, heq⟩
    · have hg := append_cancel_left (append_cancel_left heq)
      rw [← tokenize_glueAll h, ← tokenize_glueAll h', hg]
    rw [append_assoc, append_assoc, append_assoc, singleton_append] at heq
    have hg := append_cancel_left (append_cancel_left heq)
    have hs : tokenize (glueAll names ++ separator :: more) separator =
        tokenize (glueAll names) separator ++ tokenize more separator := by
      simp only [tokenize, splitOn_append_cons_self, filter_append]
    rw [hg, tokenize_glueAll h', tokenize_glueAll h] at hs
    exact ⟨tokenize more separator, hs.symm⟩
  · exact nomatch hk

theorem above_top : ∀ {id : ContainerId} {value : Text} {tail : List Text}, [value] <+: id.names ++ tail →
    Above (.top value) id
  | .top own, value, tail, h => by
    obtain rfl : value = own := (cons_prefix_cons.1 h).1
    exact .self
  | .nested parent own, value, tail, h => by
    rw [names, append_assoc] at h
    exact .up own (above_top h)

theorem above_of_prefix {tail : List Text} (ht : ∀ value, ¬ [cgroupSeparator, value] <+: tail) :
    ∀ {other : ContainerId}, other.names <+: id.names ++ tail → Above other id
  | .top value, h => above_top h
  | .nested parent value, h => by
    have hpa : Above parent id := above_of_prefix ht ((prefix_append _ _).trans h)
    rcases hpa.next with rfl | ⟨next, hn⟩
    · exact absurd ((prefix_append_right_inj _).1 h) (ht value)
    have ho := hn.names_prefix.trans (prefix_append id.names tail)
    have heq := List.IsPrefix.eq_of_length (prefix_of_prefix_length_le h ho (by simp [names]))
      (by simp [names])
    have hv : value = next := by
      simpa [names] using heq
    rw [hv]
    exact hn

theorem named_own (hierarchy : Hierarchy) (hid : id ∈ hierarchy.containers) (h : names ∈ hierarchy.own id) :
    Named names ∧ ∃ tail, names = id.names ++ tail ∧ ∀ value, ¬ [cgroupSeparator, value] <+: tail := by
  have hn := hierarchy.named hid
  have hone : ∀ name : Text, name ≠ [] ∧ separator ∉ name → Named (id.names ++ [name]) :=
    fun _ hna => forall_mem_append.2 ⟨hn, forall_mem_singleton.2 hna⟩
  rcases mem_append.1 h with h | h
  · simp only [mem_cons, not_mem_nil, or_false] at h
    rcases h with rfl | rfl | rfl
    · exact ⟨hn, [], (append_nil _).symm, fun value h => cons_ne_nil _ _ (prefix_nil.1 h)⟩
    · exact ⟨hone _ (by decide), _, rfl, fun value h => nomatch h.length_le⟩
    · exact ⟨hone _ (by decide), _, rfl, fun value h => nomatch h.length_le⟩
  · obtain ⟨made, hm, rfl⟩ := mem_map.1 h
    obtain ⟨hmem, hmi⟩ := mem_filter.1 hm
    obtain rfl : made.1 = id := of_decide_eq_true hmi
    refine ⟨named_further hierarchy hmem, _, rfl, fun _ h => ?_⟩
    exact absurd (cons_prefix_cons.1 h).1 (by decide)

theorem destroy_spares {id other : ContainerId} {containers : Launcher} (ho : Named other.names)
    (hne : other ≠ id) (ha : ∀ above, Above above id → above ∈ containers) {tail : List Text}
    (hna : Named (id.names ++ tail)) (ht : ∀ value, ¬ [cgroupSeparator, value] <+: tail) :
    cgroup root (id.names ++ tail) ∉ (destroy root cgroups containers other).2 ∧
      ∀ above, Above above id → above ∈ (destroy root cgroups containers other).1 := by
  by_cases hb : Above other id
  · obtain ⟨_, hc⟩ := hb.next.resolve_left hne
    have hn : (containers.any fun known => decide (known.parent = some other)) = true :=
      any_eq_true.2 ⟨_, ha _ hc, decide_eq_true rfl⟩
    rw [destroy, if_neg (not_not.2 (ha other hb)), if_pos hn]
    exact ⟨not_mem_nil, ha⟩
  unfold destroy
  split
  · exact ⟨not_mem_nil, ha⟩
  split
  · exact ⟨not_mem_nil, ha⟩
  refine ⟨fun hk => hb ?_, fun above h => ?_⟩
  · have hown : other.names ++ (if false = true then [leafName] else []) = other.names := append_nil _
    rw [trim_container root ho, hown] at hk
    exact above_of_prefix ht (prefix_of_killed other.names_ne_nil ho (by simp [id.names_ne_nil]) hna hk)
  · refine (mem_erase_of_ne ?_).2 (ha above h)
    rintro rfl
    exact hb h

/-- **Destroying other containers kills no cgroup of a known one.** -/
theorem destroyAll_spares {tail : List Text} (hn : Named (id.names ++ tail))
    (ht : ∀ value, ¬ [cgroupSeparator, value] <+: tail) : ∀ {destroyed : List ContainerId} {containers : Launcher},
    (∀ other ∈ destroyed, Named other.names ∧ other ≠ id) → (∀ above, Above above id → above ∈ containers) →
      cgroup root (id.names ++ tail) ∉ destroyAll root cgroups containers destroyed
  | [], _, _, _ => not_mem_nil
  | other :: destroyed, containers, hde, ha => by
    obtain ⟨ho, hne⟩ := hde other mem_cons_self
    obtain ⟨hs, hst⟩ := @destroy_spares root cgroups _ _ _ ho hne ha _ hn ht
    rw [destroyAll, mem_append, not_or]
    exact ⟨hs, destroyAll_spares hn ht (fun next hnx => hde next (mem_cons_of_mem _ hnx)) hst⟩

/-! ## The recovered containers -/

theorem containerId_agent (root : Text) (h : names ∈ [[agentName], [agentName, leafName]]) :
    containerId root (cgroup root names) = none := by
  have hn : Named [agentName, leafName] := by unfold Named; decide
  simp only [mem_cons, not_mem_nil, or_false] at h
  rcases h with rfl | rfl
  · rw [containerId_cgroup root (fun name _ => hn name (by simp_all)) (by simp),
      show tokensOf root [agentName] = [agentName] from @tokensOf_concat [] root _ fun h => nomatch h]
    decide
  · rw [containerId_cgroup root hn (by simp),
      show tokensOf root [agentName, leafName] = [agentName] from @tokensOf_leaf [agentName] root (by simp)]
    decide

theorem containerId_own {id other : ContainerId} (hid : id ∈ hierarchy.containers)
    (ho : ∀ above, Above above id → Ordinary root above) (hi : ∀ made ∈ hierarchy.further, Ignored made.2)
    (h : names ∈ hierarchy.own id) (hr : containerId root (cgroup root names) = some other) : other = id := by
  have hn := (named_own hierarchy hid h).1
  rcases mem_append.1 h with h | h
  · simp only [mem_cons, not_mem_nil, or_false] at h
    rcases h with rfl | rfl | rfl
    · rw [containerId_cgroup root hn id.names_ne_nil, names_tokens_ordinary (ho id .self),
        (parse_ordinary ho).1] at hr
      exact (Option.some.inj hr).symm
    · have hl := inverse_of_ordinary (hierarchy.named hid) ho true
      rw [containerId_trim, trim_container root (hierarchy.named hid), if_pos rfl, hr] at hl
      exact Option.some.inj hl
    · rw [containerId_cgroup root hn (by simp), tokensOf_concat fun h => absurd h (by decide),
        (parse_ordinary ho).2] at hr
      exact (Option.some.inj hr).symm
  · obtain ⟨made, hm, rfl⟩ := mem_map.1 h
    obtain ⟨hmem, hmi⟩ := mem_filter.1 hm
    obtain rfl : made.1 = id := of_decide_eq_true hmi
    rcases containerId_further (hierarchy.further_mem made hmem).2.1 hn ho with ⟨-, hno⟩ | ⟨hnot, -⟩
    · rw [hno] at hr
      exact nomatch hr
    · exact absurd (hi made hmem) hnot

theorem mem_paths (hierarchy : Hierarchy) (h : names ∈ hierarchy.paths) :
    names ∈ [[agentName], [agentName, leafName]] ∨ ∃ id ∈ hierarchy.containers, names ∈ hierarchy.own id := by
  simp only [paths, mem_append, mem_map] at h
  rcases h with h | ⟨id, hid, rfl⟩ | ⟨id, hid, rfl⟩ | ⟨id, hid, rfl⟩ | ⟨made, hm, rfl⟩
  · exact .inl h
  · exact .inr ⟨id, hid, by simp [own]⟩
  · exact .inr ⟨id, hid, by simp [own]⟩
  · exact .inr ⟨id, hierarchy.separated_mem id hid, by simp [own]⟩
  · refine .inr ⟨made.1, (hierarchy.further_mem made hm).1, mem_append_right _ ?_⟩
    exact mem_map.2 ⟨made, mem_filter.2 ⟨hm, decide_eq_true rfl⟩, rfl⟩

/-- **Exactly the agent's containers are recovered** if they are ordinary and the other cgroups below them ignored. -/
theorem known_of_ordinary (ho : ∀ id ∈ hierarchy.containers, Ordinary root id)
    (hi : ∀ made ∈ hierarchy.further, Ignored made.2) (id : ContainerId) :
    id ∈ recoverContainersFromCgroups2 root (hierarchy.cgroups root) ↔ id ∈ hierarchy.containers := by
  have ha : ∀ {id}, id ∈ hierarchy.containers → ∀ above, Above above id → Ordinary root above :=
    fun hid above h => ho above (hierarchy.above_mem h hid)
  rw [mem_recoverContainers]
  constructor
  · rintro ⟨_, ht, hr⟩
    obtain ⟨names, hn, rfl⟩ := mem_map.1 ht
    rcases mem_paths hierarchy hn with hag | ⟨own, hown, hn⟩
    · rw [containerId_agent root hag] at hr
      exact nomatch hr
    · rw [containerId_own hown (ha hown) hi hn hr]
      exact hown
  · intro hid
    refine ⟨cgroup root id.names, mem_map_of_mem ?_, ?_⟩
    · simp only [paths, mem_append, mem_map]
      exact .inr (.inl ⟨id, hid, rfl⟩)
    · rw [containerId_cgroup root (hierarchy.named hid) id.names_ne_nil, names_tokens_ordinary (ho id hid),
        (parse_ordinary (ha hid)).1]

/-- **The launcher recognises exactly the agent's own containers if and only if none of them is called like a cgroup of
the agent and every cgroup that a container makes below its leaf cgroup is one whose name the launcher ignores.** -/
theorem recognised_iff (root : Text) (hierarchy : Hierarchy) :
    Recognised root hierarchy ↔
      (∀ id ∈ hierarchy.containers, Ordinary root id) ∧ ∀ made ∈ hierarchy.further, Ignored made.2 := by
  constructor
  · intro h
    have hordinary : ∀ id ∈ hierarchy.containers, Ordinary root id :=
      fun id hid => ordinary_of_inverse (hierarchy.named hid) (h.inverse id hid false)
    refine ⟨hordinary, fun made hmade => ?_⟩
    obtain ⟨hmem, hne, -⟩ := hierarchy.further_mem made hmade
    rcases containerId_further hne (named_further hierarchy hmade)
      fun above habove => hordinary above (hierarchy.above_mem habove hmem) with ⟨hignored, -⟩ | ⟨-, result, hread, habove⟩
    · exact hignored
    -- The container made up for the cgroup is below one called `leaf`.
    have hlisted : cgroup root (made.1.names ++ leafName :: made.2) ∈ hierarchy.cgroups root := by
      refine mem_map_of_mem ?_
      simp only [paths, mem_append, mem_map]
      exact .inr (.inr (.inr (.inr ⟨made, hmade, rfl⟩)))
    have hresult := (h.known result).1 (mem_recoverContainers.2 ⟨_, hlisted, hread⟩)
    obtain ⟨-, _, htop⟩ := (hordinary _ (hierarchy.above_mem habove hresult)).2.2 rfl
    exact nomatch htop
  · rintro ⟨hordinary, hignored⟩
    have hknown := known_of_ordinary hordinary hignored
    have horphans : ∀ states id, id ∈ (recover root (hierarchy.cgroups root) states).2 ↔
        id ∈ hierarchy.containers ∧ id ∉ states := by
      intro states id
      rw [mem_recover.2, hknown]
    refine ⟨fun id hid leaf => ?_, hknown, horphans, fun states _ hdestroyed _ hid hstate _ hnames => ?_⟩
    · exact inverse_of_ordinary (hierarchy.named hid)
        (fun above habove => hordinary above (hierarchy.above_mem habove hid)) leaf
    obtain ⟨hnamed, _, rfl, htail⟩ := named_own hierarchy hid hnames
    refine destroyAll_spares hnamed htail (fun other hother => ?_) (fun above habove => ?_)
    · obtain ⟨hmem, hnot⟩ := (horphans states other).1 (hdestroyed other hother)
      exact ⟨hierarchy.named hmem, fun heq => hnot (heq ▸ hstate)⟩
    · exact mem_recover.1.2 (.inl ((hknown above).2 (hierarchy.above_mem habove hid)))

/-- An agent with the container `x`, which has made the cgroup `mycgroup` below its leaf cgroup. -/
def subcgroup : Hierarchy where
  containers := [.top "x".toList]
  valid := by decide
  closed := by simp
  separated := []
  separated_mem := by simp
  further := [(.top "x".toList, ["mycgroup".toList])]
  further_mem := by decide

/-- **A cgroup that a container makes is recovered as a nested container** that the agent never launched. -/
theorem subcgroup_not_recognised : ¬ Recognised "mesos".toList subcgroup := by
  intro h
  have hread : nested (.nested (.top "x".toList) leafName) "mycgroup".toList ∈
      recoverContainersFromCgroups2 "mesos".toList (subcgroup.cgroups "mesos".toList) := by
    decide +kernel
  exact nomatch (h.known _).1 hread

end Clusterd.Cgroups
