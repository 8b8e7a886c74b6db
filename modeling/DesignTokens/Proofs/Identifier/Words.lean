import DesignTokens.Identifier
import DesignTokens.Proofs.Lists
import DesignTokens.Proofs.Text.Words
/-!
# Identifiers by words

An identifier is determined by the words of its path: the maximal runs of letters, digits and
underscores inside the segments.  It is two hyphens and the words with a hyphen between each two of
them, whatever else stood between them in the path, and a path without words is named as if its one
word were the placeholder.  So two paths have one identifier exactly if they have the same words.
-/

set_option autoImplicit false

namespace DesignTokens.Identifier

/-! ## Words -/

/-- The characters of words: ASCII letters and digits, and the underscore. -/
def isWordChar (c : Char) : Bool :=
  c.isAlphanum || c == '_'

/-- A word: some characters, all of them word characters. -/
def IsWord (cs : List Char) : Prop :=
  cs ≠ [] ∧ ∀ c ∈ cs, isWordChar c = true

/-- The words of a text. -/
def wordsOf (cs : List Char) : List (List Char) :=
  Text.runs isWordChar cs

/-- The words of a path, segment after segment. -/
def pathWords (path : TokenPath) : List (List Char) :=
  path.flatMap fun segment => wordsOf segment.toList

/-- The words of the identifier of a path: those of the path, or the placeholder. -/
def nameWords (path : TokenPath) : List (List Char) :=
  if pathWords path = [] then [placeholder.toList] else pathWords path

/-- Words with a hyphen between each two of them. -/
def hyphenated (words : List (List Char)) : List Char :=
  ['-'].intercalate words

/-- Words with a hyphen before each of them. -/
def spelled (words : List (List Char)) : List Char :=
  words.flatMap fun word => '-' :: word

theorem isWordChar_hyphen : isWordChar '-' = false := by decide

theorem isIdentifierChar_eq (c : Char) : isIdentifierChar c = (isWordChar c || c == '-') := rfl

theorem wordsOf_cons_of_not {c : Char} (hc : isWordChar c = false) (rest : List Char) :
    wordsOf (c :: rest) = wordsOf rest :=
  Text.runs_cons_of_not hc rest

theorem wordsOf_append {word rest : List Char} (hword : IsWord word)
    (hrest : ∀ c ∈ rest.head?, isWordChar c = false) :
    wordsOf (word ++ rest) = word :: wordsOf rest :=
  Text.runs_append hword.1 hword.2 hrest

theorem wordsOf_cons_of_end {c : Char} {rest : List Char} (hc : isWordChar c = true)
    (hrest : ∀ d ∈ rest.head?, isWordChar d = false) : wordsOf (c :: rest) = [c] :: wordsOf rest :=
  Text.runs_cons_of_end hc hrest

theorem isWord_of_mem_wordsOf {cs word : List Char} (h : word ∈ wordsOf cs) : IsWord word := by
  obtain ⟨hne, hchars⟩ := Text.mem_runs h
  exact ⟨hne, fun c hc => (hchars c hc).1⟩

theorem isWord_of_mem_pathWords {path : TokenPath} {word : List Char}
    (h : word ∈ pathWords path) : IsWord word := by
  obtain ⟨_, _, hword⟩ := List.mem_flatMap.mp h
  exact isWord_of_mem_wordsOf hword

theorem isWord_placeholder : IsWord placeholder.toList := by
  have hchars : placeholder.toList = ['_'] := rfl
  refine ⟨by decide, fun c hc => ?_⟩
  rw [hchars, List.mem_singleton] at hc
  rw [hc]
  decide

theorem isWord_of_mem_nameWords {path : TokenPath} {word : List Char}
    (h : word ∈ nameWords path) : IsWord word := by
  unfold nameWords at h
  split at h
  · rw [List.mem_singleton.mp h]
    exact isWord_placeholder
  · exact isWord_of_mem_pathWords h

theorem nameWords_ne_nil (path : TokenPath) : nameWords path ≠ [] := by
  unfold nameWords
  split
  · exact List.cons_ne_nil _ _
  · assumption

/-! ## Hyphens between words -/

theorem spelled_cons_eq_append (word : List Char) (words : List (List Char)) :
    spelled (word :: words) = '-' :: (word ++ spelled words) := rfl

theorem spelled_cons (word : List Char) (words : List (List Char)) :
    spelled (word :: words) = '-' :: hyphenated (word :: words) := by
  rw [spelled, List.flatMap_cons, hyphenated, Lists.intercalate_cons]
  rfl

/-- Hyphens before the words differ from hyphens between them by the first one. -/
theorem tail_spelled (words : List (List Char)) : (spelled words).tail = hyphenated words := by
  cases words with
  | nil => rfl
  | cons word words => rw [spelled_cons, List.tail_cons]

/-- Words are read back from behind their hyphens. -/
theorem wordsOf_spelled {words : List (List Char)} (h : ∀ word ∈ words, IsWord word) :
    wordsOf (spelled words) = words := by
  induction words with
  | nil => rfl
  | cons word words ih =>
    have hnext : ∀ c ∈ (spelled words).head?, isWordChar c = false := by
      cases words with
      | nil => simp [spelled]
      | cons next words => simp [spelled_cons, isWordChar_hyphen]
    rw [spelled_cons_eq_append, wordsOf_cons_of_not isWordChar_hyphen,
      wordsOf_append (h word List.mem_cons_self) hnext,
      ih fun word' hword' => h word' (List.mem_cons_of_mem _ hword')]

/-- Words are read back from between their hyphens. -/
theorem wordsOf_hyphenated {words : List (List Char)} (h : ∀ word ∈ words, IsWord word) :
    wordsOf (hyphenated words) = words := by
  cases words with
  | nil => rfl
  | cons word words =>
    have hspelled := wordsOf_spelled h
    rwa [spelled_cons, wordsOf_cons_of_not isWordChar_hyphen] at hspelled

theorem hyphenated_cons_cons (word next : List Char) (words : List (List Char)) :
    hyphenated (word :: next :: words) = word ++ '-' :: hyphenated (next :: words) := by
  rw [hyphenated, List.intercalate_cons_cons, List.append_assoc, List.singleton_append,
    ← hyphenated]

/-- Words begin and end with word characters, alone or joined by hyphens. -/
theorem word_chars_at_ends {words : List (List Char)} (hne : words ≠ [])
    (h : ∀ word ∈ words, IsWord word) :
    (∃ c ∈ (hyphenated words).head?, isWordChar c = true) ∧
      ∃ c ∈ (hyphenated words).getLast?, isWordChar c = true := by
  induction words with
  | nil => exact absurd rfl hne
  | cons word words ih =>
    obtain ⟨hword, hchars⟩ := h word List.mem_cons_self
    have hhead : word.head hword ∈ word.head? := List.head?_eq_some_head hword
    have hlast : word.getLast hword ∈ word.getLast? := List.getLast?_eq_some_getLast hword
    cases words with
    | nil =>
      rw [hyphenated, List.intercalate_singleton]
      exact ⟨⟨_, hhead, hchars _ (List.head_mem hword)⟩, _, hlast, hchars _ (List.getLast_mem hword)⟩
    | cons next words =>
      obtain ⟨_, last, hlater, hchar⟩ :=
        ih (List.cons_ne_nil _ _) fun word' hword' => h word' (List.mem_cons_of_mem _ hword')
      rw [hyphenated_cons_cons, List.head?_append_of_ne_nil _ hword,
        List.getLast?_append_of_ne_nil _ (List.cons_ne_nil _ _), List.getLast?_cons,
        Option.mem_def.mp hlater]
      exact ⟨⟨_, hhead, hchars _ (List.head_mem hword)⟩, last, rfl, hchar⟩

/-- Every hyphen between words has word characters on both sides. -/
theorem word_chars_around {words : List (List Char)} (h : ∀ word ∈ words, IsWord word)
    {before after : List Char} (hsplit : hyphenated words = before ++ '-' :: after) :
    (∃ c ∈ before.getLast?, isWordChar c = true) ∧ ∃ c ∈ after.head?, isWordChar c = true := by
  induction words generalizing before with
  | nil => simp [hyphenated] at hsplit
  | cons word words ih =>
    obtain ⟨hne, hchars⟩ := h word List.mem_cons_self
    have hnot : '-' ∉ word := fun hmem => by simpa [isWordChar_hyphen] using hchars '-' hmem
    have hlater : ∀ word ∈ words, IsWord word :=
      fun word' hword' => h word' (List.mem_cons_of_mem _ hword')
    cases words with
    | nil =>
      rw [hyphenated, List.intercalate_singleton] at hsplit
      exact absurd (hsplit ▸ by simp) hnot
    | cons next words =>
      rw [hyphenated_cons_cons] at hsplit
      rcases Lists.eq_or_exists_of_append_cons hnot hsplit with ⟨rfl, rfl⟩ | ⟨between, rfl, hrest⟩
      · exact ⟨⟨_, List.getLast?_eq_some_getLast hne, hchars _ (List.getLast_mem hne)⟩,
          (word_chars_at_ends (List.cons_ne_nil _ _) hlater).1⟩
      · obtain ⟨⟨last, hlast, hchar⟩, hhead⟩ := ih hlater hrest
        rw [List.getLast?_append_of_ne_nil _ (List.cons_ne_nil _ _), List.getLast?_cons,
          Option.mem_def.mp hlast]
        exact ⟨⟨last, rfl, hchar⟩, hhead⟩

/-! ## Names -/

/-- A name as it stands behind the two hyphens of an identifier: some identifier characters, no
hyphen at either end, and no two hyphens in a row. -/
structure IsName (cs : List Char) : Prop where
  ne_nil : cs ≠ []
  chars : ∀ c ∈ cs, isIdentifierChar c = true
  no_leading : cs.head? ≠ some '-'
  no_trailing : cs.getLast? ≠ some '-'
  no_doubled : ¬ ['-', '-'] <:+: cs

/-- Words joined by hyphens are a name. -/
theorem isName_hyphenated {words : List (List Char)} (hne : words ≠ [])
    (h : ∀ word ∈ words, IsWord word) : IsName (hyphenated words) := by
  obtain ⟨⟨first, hfirst, hfirstChar⟩, last, hlast, hlastChar⟩ := word_chars_at_ends hne h
  refine ⟨fun hnil => ?_, fun c hc => ?_, fun hhyphen => ?_, fun hhyphen => ?_, ?_⟩
  · rw [hnil] at hfirst
    cases hfirst
  · rw [isIdentifierChar_eq, Bool.or_eq_true]
    obtain rfl | ⟨word, hword, hmem⟩ := Lists.mem_intercalate hc
    · exact .inr (by decide)
    · exact .inl ((h word hword).2 c hmem)
  · rw [hhyphen, Option.mem_some_iff] at hfirst
    simp [← hfirst, isWordChar_hyphen] at hfirstChar
  · rw [hhyphen, Option.mem_some_iff] at hlast
    simp [← hlast, isWordChar_hyphen] at hlastChar
  · rintro ⟨before, after, hsplit⟩
    have hsplit' : hyphenated words = before ++ '-' :: '-' :: after := by
      rw [← hsplit]
      simp
    obtain ⟨_, c, hc, hchar⟩ := word_chars_around h hsplit'
    rw [List.head?_cons, Option.mem_some_iff] at hc
    simp [← hc, isWordChar_hyphen] at hchar

/-! ## Sanitizing -/

/-- A hyphen in the place of a character that an identifier cannot hold. -/
def hyphenate (c : Char) : Char :=
  if isIdentifierChar c then c else '-'

theorem hyphenate_of_word {c : Char} (h : isWordChar c = true) : hyphenate c = c := by
  rw [hyphenate, if_pos (by rw [isIdentifierChar_eq, h, Bool.true_or])]

theorem hyphenate_of_not_word {c : Char} (h : isWordChar c = false) : hyphenate c = '-' := by
  unfold hyphenate
  split
  · rename_i hc
    simpa [isIdentifierChar_eq, h] using hc
  · rfl

theorem ne_hyphen_of_word {c : Char} (h : isWordChar c = true) : c ≠ '-' := by
  rintro rfl
  cases h

theorem collapseHyphens_cons_of_ne {c : Char} (h : c ≠ '-') (rest : List Char) :
    collapseHyphens (c :: rest) = c :: collapseHyphens rest := by
  rw [collapseHyphens]
  exact fun _ hc _ => h hc

theorem collapseHyphens_hyphen_cons_of_ne {c : Char} (h : c ≠ '-') (rest : List Char) :
    collapseHyphens ('-' :: c :: rest) = '-' :: c :: collapseHyphens rest := by
  rw [collapseHyphens, collapseHyphens_cons_of_ne h]
  exact fun _ _ hc => h (List.cons.inj hc).1

/-- Behind a hyphen, collapsing leaves the words of a text with a hyphen before each of them, and
perhaps hyphens at the end. -/
theorem exists_collapseHyphens_eq (cs : List Char) :
    ∃ after, (∀ c ∈ after, c = '-') ∧
      collapseHyphens ('-' :: cs.map hyphenate) = spelled (wordsOf cs) ++ after := by
  induction cs with
  | nil => exact ⟨['-'], by simp, rfl⟩
  | cons c rest ih =>
    obtain ⟨after, hafter, hrest⟩ := ih
    rw [List.map_cons]
    cases hc : isWordChar c with
    | false =>
      refine ⟨after, hafter, ?_⟩
      rw [hyphenate_of_not_word hc, collapseHyphens, hrest, wordsOf_cons_of_not hc]
    | true =>
      rw [hyphenate_of_word hc, collapseHyphens_hyphen_cons_of_ne (ne_hyphen_of_word hc)]
      cases rest with
      | nil =>
        refine ⟨[], by simp, ?_⟩
        rw [wordsOf_cons_of_end hc (by simp)]
        rfl
      | cons d rest =>
        refine ⟨after, hafter, ?_⟩
        rw [List.map_cons] at hrest ⊢
        cases hd : isWordChar d with
        | false =>
          -- The word ends here, and the hyphen after it is the one that the rest stands behind.
          rw [hyphenate_of_not_word hd, collapseHyphens] at hrest
          rw [hyphenate_of_not_word hd, hrest, wordsOf_cons_of_end hc (by simp [hd])]
          rfl
        | true =>
          obtain ⟨run, later, hruns, hmore⟩ := Text.runs_cons_cons hc hd rest
          rw [hyphenate_of_word hd, collapseHyphens_hyphen_cons_of_ne (ne_hyphen_of_word hd),
            wordsOf, hruns, spelled_cons_eq_append, List.cons_append, List.cons.injEq] at hrest
          rw [hyphenate_of_word hd, collapseHyphens_cons_of_ne (ne_hyphen_of_word hd), hrest.2,
            wordsOf, hmore]
          rfl

/-- Stripping takes away the hyphens behind words. -/
theorem stripHyphens_hyphenated {words : List (List Char)} (h : ∀ word ∈ words, IsWord word)
    {after : List Char} (hafter : ∀ c ∈ after, c = '-') :
    stripHyphens (hyphenated words ++ after) = hyphenated words := by
  have hhyphens {cs : List Char} (hcs : ∀ c ∈ cs, c ∈ after) : ∀ c ∈ cs, (c == '-') = true :=
    fun c hc => by simp [hafter c (hcs c hc)]
  unfold stripHyphens
  by_cases hwords : words = []
  · have hdrop : (after ++ []).dropWhile (· == '-') = [] :=
      Lists.dropWhile_append_eq (hhyphens fun _ hc => hc) (by simp)
    rw [List.append_nil] at hdrop
    rw [hwords, hyphenated, List.intercalate_nil, List.nil_append, hdrop]
    rfl
  · obtain ⟨⟨first, hfirst, hfirstChar⟩, last, hlast, hlastChar⟩ := word_chars_at_ends hwords h
    have hne : hyphenated words ≠ [] := (isName_hyphenated hwords h).ne_nil
    have hstart : ([] ++ (hyphenated words ++ after)).dropWhile (· == '-') =
        hyphenated words ++ after := by
      refine Lists.dropWhile_append_eq (by simp) fun c hc => ?_
      rw [List.head?_append_of_ne_nil _ hne, Option.mem_def.mp hfirst, Option.mem_some_iff] at hc
      simpa [← hc] using ne_hyphen_of_word hfirstChar
    have hend : (after.reverse ++ (hyphenated words).reverse).dropWhile (· == '-') =
        (hyphenated words).reverse := by
      refine Lists.dropWhile_append_eq (hhyphens fun c hc => List.mem_reverse.mp hc) fun c hc => ?_
      rw [List.head?_reverse, Option.mem_def.mp hlast, Option.mem_some_iff] at hc
      simpa [← hc] using ne_hyphen_of_word hlastChar
    rw [List.nil_append] at hstart
    rw [hstart, List.reverse_append, hend, List.reverse_reverse]

/-- Stripping takes away a hyphen in front. -/
theorem stripHyphens_hyphen_cons (cs : List Char) : stripHyphens ('-' :: cs) = stripHyphens cs := by
  rw [stripHyphens, List.dropWhile_cons_of_pos (by decide), ← stripHyphens]

/-- A hyphen in front of a text makes no difference to what is left of it. -/
theorem stripHyphens_collapseHyphens_cons (cs : List Char) :
    stripHyphens (collapseHyphens ('-' :: cs)) = stripHyphens (collapseHyphens cs) := by
  cases cs with
  | nil => rfl
  | cons c rest =>
    by_cases hc : c = '-'
    · rw [hc, collapseHyphens]
    · rw [collapseHyphens_hyphen_cons_of_ne hc, stripHyphens_hyphen_cons,
        collapseHyphens_cons_of_ne hc]

/-- Of any text, collapsing and stripping leave its words with a hyphen between each two. -/
theorem stripHyphens_collapseHyphens (cs : List Char) :
    stripHyphens (collapseHyphens (cs.map hyphenate)) = hyphenated (wordsOf cs) := by
  obtain ⟨after, hafter, hcollapse⟩ := exists_collapseHyphens_eq cs
  have hstrip : stripHyphens (hyphenated (wordsOf cs) ++ after) = hyphenated (wordsOf cs) :=
    stripHyphens_hyphenated (fun _ => isWord_of_mem_wordsOf) hafter
  rw [← stripHyphens_collapseHyphens_cons, hcollapse, ← hstrip]
  cases wordsOf cs with
  | nil => rfl
  | cons word words => rw [spelled_cons, List.cons_append, stripHyphens_hyphen_cons]

/-- A sanitized segment is its words with a hyphen between each two of them. -/
theorem toList_sanitizeSegment (segment : String) :
    (sanitizeSegment segment).toList = hyphenated (wordsOf segment.toList) := by
  rw [sanitizeSegment, String.toList_ofList]
  exact stripHyphens_collapseHyphens segment.toList

/-- Sanitizing keeps the words of a segment. -/
theorem wordsOf_sanitizeSegment (segment : String) :
    wordsOf (sanitizeSegment segment).toList = wordsOf segment.toList := by
  rw [toList_sanitizeSegment, wordsOf_hyphenated fun _ => isWord_of_mem_wordsOf]

theorem sanitizeSegment_sanitizeSegment (segment : String) :
    sanitizeSegment (sanitizeSegment segment) = sanitizeSegment segment := by
  rw [← String.toList_inj, toList_sanitizeSegment, wordsOf_sanitizeSegment,
    ← toList_sanitizeSegment]

/-- Sanitizing leaves exactly those segments alone that are words joined by single hyphens. -/
theorem sanitizeSegment_eq_self_iff {segment : String} : sanitizeSegment segment = segment ↔
    ∃ words, (∀ word ∈ words, IsWord word) ∧ segment.toList = hyphenated words := by
  rw [← String.toList_inj, toList_sanitizeSegment]
  constructor
  · exact fun h => ⟨_, fun _ => isWord_of_mem_wordsOf, h.symm⟩
  · rintro ⟨words, hwords, hsegment⟩
    rw [hsegment, wordsOf_hyphenated hwords]

/-! ## Blanks first -/

/-- One hyphen in the place of each run of blanks. -/
def hyphenateBlanks : List Char → List Char
  | [] => []
  | c :: rest =>
    if Text.isBlank c then
      if rest.head?.any Text.isBlank then hyphenateBlanks rest else '-' :: hyphenateBlanks rest
    else c :: hyphenateBlanks rest

theorem isWordChar_of_isBlank {c : Char} (h : Text.isBlank c = true) : isWordChar c = false := by
  rw [← Bool.not_eq_true]
  intro hword
  unfold isWordChar at hword
  rw [Bool.or_eq_true, beq_iff_eq] at hword
  obtain halphanum | rfl := hword
  · rw [Text.isBlank_of_isAlphanum halphanum] at h
    cases h
  · cases h

/-- Whether a text begins inside a word. -/
def beginsInWord (cs : List Char) : Bool :=
  cs.head?.any isWordChar

/-- The words of a text depend on its first character, on the words behind it, and on whether the
rest begins inside one of them. -/
theorem wordsOf_cons_congr {rest rest' : List Char} (hwords : wordsOf rest = wordsOf rest')
    (hhead : beginsInWord rest = beginsInWord rest') (c : Char) :
    wordsOf (c :: rest) = wordsOf (c :: rest') := by
  have hend {cs : List Char} (h : beginsInWord cs = false) : ∀ d ∈ cs.head?, isWordChar d = false := by
    intro d hd
    rwa [beginsInWord, Option.mem_def.mp hd, Option.any_some] at h
  cases hc : isWordChar c with
  | false => rw [wordsOf_cons_of_not hc, wordsOf_cons_of_not hc, hwords]
  | true =>
    cases hrest : beginsInWord rest with
    | false =>
      rw [wordsOf_cons_of_end hc (hend hrest), wordsOf_cons_of_end hc (hend (hhead ▸ hrest)), hwords]
    | true =>
      cases rest with
      | nil => cases hrest
      | cons d rest =>
        cases rest' with
        | nil =>
          rw [hrest] at hhead
          cases hhead
        | cons d' rest' =>
          obtain ⟨run, later, hruns, hmore⟩ := Text.runs_cons_cons hc hrest rest
          obtain ⟨run', later', hruns', hmore'⟩ := Text.runs_cons_cons hc (hhead ▸ hrest) rest'
          rw [wordsOf, wordsOf, hruns, hruns', List.cons.injEq] at hwords
          rw [wordsOf, wordsOf, hmore, hmore', hwords.1, hwords.2]

/-- The hyphens in the place of blanks are in no word. -/
theorem wordsOf_hyphenateBlanks (cs : List Char) : wordsOf (hyphenateBlanks cs) = wordsOf cs ∧
    beginsInWord (hyphenateBlanks cs) = beginsInWord cs := by
  induction cs with
  | nil => exact ⟨rfl, rfl⟩
  | cons c rest ih =>
    rw [hyphenateBlanks]
    split
    · rename_i hblank
      have hc := isWordChar_of_isBlank hblank
      have hcons : beginsInWord (c :: rest) = false := hc
      rw [wordsOf_cons_of_not hc, hcons]
      split
      · rename_i hnext
        refine ⟨ih.1, ih.2.trans ?_⟩
        cases rest with
        | nil => rfl
        | cons d rest => exact isWordChar_of_isBlank hnext
      · exact ⟨(wordsOf_cons_of_not isWordChar_hyphen _).trans ih.1, isWordChar_hyphen⟩
    · exact ⟨wordsOf_cons_congr ih.1 ih.2 c, rfl⟩

/-- A segment may also be sanitized in three rewrites: blanks first, run by run, then each other
character that an identifier cannot hold, and at last the runs of hyphens. -/
theorem sanitizeSegment_eq_rewrites (segment : String) :
    sanitizeSegment segment = String.ofList (stripHyphens (collapseHyphens
      ((hyphenateBlanks segment.toList).map hyphenate))) := by
  rw [← String.toList_inj, String.toList_ofList, toList_sanitizeSegment,
    stripHyphens_collapseHyphens, (wordsOf_hyphenateBlanks _).1]

/-! ## Paths -/

theorem spelled_append (words later : List (List Char)) :
    spelled (words ++ later) = spelled words ++ spelled later :=
  List.flatMap_append

/-- The segments that are left, each behind a hyphen, spell the words of the path. -/
theorem spelled_parts (path : TokenPath) :
    spelled (((path.map sanitizeSegment).filter (· ≠ "")).map String.toList) =
      spelled (pathWords path) := by
  induction path with
  | nil => rfl
  | cons segment rest ih =>
    have hwords : pathWords (segment :: rest) = wordsOf segment.toList ++ pathWords rest := rfl
    have hsegment := toList_sanitizeSegment segment
    rw [hwords, spelled_append, ← ih, List.map_cons]
    cases hcases : wordsOf segment.toList with
    | nil =>
      have hempty : sanitizeSegment segment = "" := by
        rw [← String.toList_eq_nil_iff, hsegment, hcases]
        rfl
      rw [List.filter_cons_of_neg (by simp [hempty])]
      rfl
    | cons word words =>
      have hwords : ∀ word' ∈ word :: words, IsWord word' :=
        fun word' hword' => isWord_of_mem_wordsOf (hcases ▸ hword')
      have hname := (isName_hyphenated (List.cons_ne_nil word words) hwords).ne_nil
      rw [hcases] at hsegment
      have hne : sanitizeSegment segment ≠ "" := by
        intro hempty
        rw [hempty] at hsegment
        exact hname hsegment.symm
      rw [List.filter_cons_of_pos (by simpa using hne), List.map_cons, hsegment,
        spelled_cons_eq_append, spelled_cons word words, List.cons_append]

/-- An identifier is two hyphens and the words of its path with a hyphen between each two of them;
a path without words has the placeholder. -/
theorem toList_ofPath (path : TokenPath) :
    (ofPath path).toList = '-' :: '-' :: hyphenated (nameWords path) := by
  have hbody : ("-".intercalate ((path.map sanitizeSegment).filter (· ≠ ""))).toList =
      hyphenated (pathWords path) := by
    rw [String.toList_intercalate, ← tail_spelled, ← spelled_parts, tail_spelled]
    rfl
  unfold ofPath nameWords
  simp only
  split
  · rename_i hempty
    have hnone : pathWords path = [] := by
      by_contra hne
      refine (isName_hyphenated hne fun _ => isWord_of_mem_pathWords).ne_nil ?_
      rw [← hbody, hempty]
      rfl
    rw [if_pos hnone, String.toList_append, hyphenated, List.intercalate_singleton]
    rfl
  · rename_i hne
    have hsome : pathWords path ≠ [] := by
      intro hnone
      rw [hnone] at hbody
      exact hne (String.toList_eq_nil_iff.mp hbody)
    rw [if_neg hsome, String.toList_append, hbody]
    rfl

/-- Two paths have one identifier exactly if they have the same words. -/
theorem ofPath_eq_iff {path other : TokenPath} :
    ofPath path = ofPath other ↔ nameWords path = nameWords other := by
  rw [← String.toList_inj, toList_ofPath, toList_ofPath, List.cons.injEq, List.cons.injEq]
  have hwords (path : TokenPath) : wordsOf (hyphenated (nameWords path)) = nameWords path :=
    wordsOf_hyphenated fun _ => isWord_of_mem_nameWords
  constructor
  · rintro ⟨_, _, h⟩
    rw [← hwords path, h, hwords other]
  · exact fun h => ⟨rfl, rfl, by rw [h]⟩

/-- Identifiers are determined by the words of paths.  The identifier of a path is two hyphens and
its words with a hyphen between each two of them, or two hyphens and the placeholder if it has none;
so what stands behind the two hyphens is a name.  A segment by itself becomes its words joined by
hyphens; sanitizing it again changes nothing, and the segments that sanitizing leaves alone are just
the words joined by single hyphens.  Two paths have one identifier exactly if their words are the
same, where a path without words counts as one with the placeholder for its only word. -/
theorem ofPath_by_words (path : TokenPath) :
    (ofPath path).toList = '-' :: '-' :: hyphenated (nameWords path) ∧
      IsName (hyphenated (nameWords path)) ∧
      (∀ segment, sanitizeSegment (sanitizeSegment segment) = sanitizeSegment segment) ∧
      (∀ segment, sanitizeSegment segment = segment ↔
        ∃ words, (∀ word ∈ words, IsWord word) ∧ segment.toList = hyphenated words) ∧
      ∀ other, ofPath path = ofPath other ↔ nameWords path = nameWords other :=
  ⟨toList_ofPath path, isName_hyphenated (nameWords_ne_nil path) fun _ => isWord_of_mem_nameWords,
    sanitizeSegment_sanitizeSegment, fun _ => sanitizeSegment_eq_self_iff, fun _ => ofPath_eq_iff⟩

end DesignTokens.Identifier
