import DesignTokens.Proofs.Lists
import DesignTokens.Text.Blank
import Mathlib.Data.List.Basic
/-!
# Words and pieces

The words of a text hold no blanks; put together with single spaces, they make a text that trimming
leaves as it is, and that it brings back from behind other blanks.  A text that is cut at a
separator falls into pieces without it.
-/

set_option autoImplicit false

namespace DesignTokens.Text

/-! ## Runs -/

/-- A run is not empty, and consists of kept characters of the text. -/
theorem mem_runs {keep : Char → Bool} {cs run : List Char} (h : run ∈ runs keep cs) :
    run ≠ [] ∧ ∀ c ∈ run, keep c = true ∧ c ∈ cs := by
  induction cs generalizing run with
  | nil => cases h
  | cons c rest ih =>
    have hrest {run' : List Char} (hrun : run' ∈ runs keep rest) :
        run' ≠ [] ∧ ∀ d ∈ run', keep d = true ∧ d ∈ c :: rest := by
      obtain ⟨hne, hchars⟩ := ih hrun
      exact ⟨hne, fun d hd => ⟨(hchars d hd).1, List.mem_cons_of_mem _ (hchars d hd).2⟩⟩
    unfold runs at h
    by_cases hkeep : keep c = true
    · have hnew : [c] ≠ [] ∧ ∀ d ∈ [c], keep d = true ∧ d ∈ c :: rest := by
        refine ⟨List.cons_ne_nil _ _, fun d hd => ?_⟩
        rw [List.mem_singleton.mp hd]
        exact ⟨hkeep, List.mem_cons_self⟩
      rw [if_pos hkeep] at h
      split at h
      · rename_i d rest' word words hruns
        rw [hruns] at hrest
        split at h
        · rcases List.mem_cons.mp h with rfl | hlater
          · obtain ⟨_, hchars⟩ := hrest List.mem_cons_self
            refine ⟨List.cons_ne_nil _ _, fun e he => ?_⟩
            rcases List.mem_cons.mp he with rfl | hword
            · exact ⟨hkeep, List.mem_cons_self⟩
            · exact hchars e hword
          · exact hrest (List.mem_cons_of_mem _ hlater)
        · rcases List.mem_cons.mp h with rfl | hlater
          · exact hnew
          · exact hrest hlater
      · rcases List.mem_cons.mp h with rfl | hlater
        · exact hnew
        · exact hrest hlater
    · rw [if_neg hkeep] at h
      exact hrest h

theorem runs_cons (keep : Char → Bool) (c : Char) (rest : List Char) :
    runs keep (c :: rest) =
      if keep c then
        match rest, runs keep rest with
        | d :: _, run :: later => if keep d then (c :: run) :: later else [c] :: run :: later
        | _, later => [c] :: later
      else runs keep rest := rfl

/-- A character that is not kept is in no run. -/
theorem runs_cons_of_not {keep : Char → Bool} {c : Char} (hc : keep c = false) (rest : List Char) :
    runs keep (c :: rest) = runs keep rest := by
  rw [runs_cons, if_neg (by simp [hc])]

/-- A run goes on through the kept characters that follow it. -/
theorem runs_cons_cons {keep : Char → Bool} {c d : Char} (hc : keep c = true) (hd : keep d = true)
    (rest : List Char) : ∃ run later, runs keep (d :: rest) = run :: later ∧
      runs keep (c :: d :: rest) = (c :: run) :: later := by
  have hfirst : ∃ run later, runs keep (d :: rest) = run :: later := by
    rw [runs_cons, if_pos hd]
    split
    · split <;> exact ⟨_, _, rfl⟩
    · exact ⟨_, _, rfl⟩
  obtain ⟨run, later, hruns⟩ := hfirst
  refine ⟨run, later, hruns, ?_⟩
  rw [runs_cons, if_pos hc, hruns]
  simp only [if_pos hd]

/-- A run ends before a character that is not kept. -/
theorem runs_cons_of_end {keep : Char → Bool} {c : Char} {rest : List Char} (hc : keep c = true)
    (hrest : ∀ d ∈ rest.head?, keep d = false) :
    runs keep (c :: rest) = [c] :: runs keep rest := by
  rw [runs_cons, if_pos hc]
  split
  · rename_i d _ run later hruns
    rw [if_neg (by simp [hrest d rfl]), hruns]
  · rfl

/-- Runs are maximal: kept characters are one run up to the first one that is not kept. -/
theorem runs_append {keep : Char → Bool} {run rest : List Char} (hne : run ≠ [])
    (hrun : ∀ c ∈ run, keep c = true) (hrest : ∀ c ∈ rest.head?, keep c = false) :
    runs keep (run ++ rest) = run :: runs keep rest := by
  induction run with
  | nil => exact absurd rfl hne
  | cons c run ih =>
    have hc := hrun c List.mem_cons_self
    cases run with
    | nil => exact runs_cons_of_end hc hrest
    | cons d run =>
      have hlater := ih (List.cons_ne_nil _ _) fun e he => hrun e (List.mem_cons_of_mem _ he)
      have hd := hrun d (List.mem_cons_of_mem _ List.mem_cons_self)
      obtain ⟨first, later, hfirst, hruns⟩ := runs_cons_cons hc hd (run ++ rest)
      rw [← List.cons_append, hlater, List.cons.injEq] at hfirst
      rw [List.cons_append, List.cons_append, hruns, ← hfirst.1, ← hfirst.2]

/-- The runs hold just the characters that are kept, in order. -/
theorem flatten_runs (keep : Char → Bool) (cs : List Char) :
    (runs keep cs).flatten = cs.filter keep := by
  induction cs with
  | nil => rfl
  | cons c rest ih =>
    cases hc : keep c with
    | false => rw [runs_cons_of_not hc, ih, List.filter_cons_of_neg (by simp [hc])]
    | true =>
      rw [List.filter_cons_of_pos hc, ← ih]
      cases rest with
      | nil => rw [runs_cons_of_end hc (by simp), List.flatten_cons, List.singleton_append]
      | cons d rest =>
        cases hd : keep d with
        | false =>
          have hend : ∀ e ∈ (d :: rest).head?, keep e = false := by
            rintro _ ⟨⟩
            exact hd
          rw [runs_cons_of_end hc hend, List.flatten_cons, List.singleton_append]
        | true =>
          obtain ⟨run, later, hrest, hruns⟩ := runs_cons_cons hc hd rest
          rw [hruns, hrest, List.flatten_cons, List.flatten_cons, List.cons_append]

/-! ## Single spaces -/

theorem isBlank_of_isAlphanum {c : Char} (h : c.isAlphanum = true) : isBlank c = false := by
  have hnat : c.toNat = c.val.toNat := rfl
  unfold Char.isAlphanum Char.isAlpha Char.isUpper Char.isLower Char.isDigit at h
  simp only [Bool.or_eq_true, Bool.and_eq_true, decide_eq_true_eq, ge_iff_le,
    UInt32.le_iff_toNat_le] at h
  unfold isBlank
  simp at h ⊢
  omega

/-- A word: some characters, none of them blank. -/
def IsWord (cs : List Char) : Prop :=
  cs ≠ [] ∧ ∀ c ∈ cs, isBlank c = false

/-- A text of words with single spaces between them, and no other blanks. -/
def SingleSpaced (cs : List Char) : Prop :=
  ∃ words : List (List Char), (∀ word ∈ words, IsWord word) ∧ cs = [' '].intercalate words

variable {cs : List Char} {c : Char}

/-- A text without blanks is at most one word. -/
theorem singleSpaced_of_no_blank (h : ∀ c ∈ cs, isBlank c = false) : SingleSpaced cs := by
  cases cs with
  | nil => exact ⟨[], by simp, rfl⟩
  | cons c rest =>
    refine ⟨[c :: rest], fun word hword => ?_, by simp⟩
    rw [List.mem_singleton.mp hword]
    exact ⟨List.cons_ne_nil _ _, h⟩

/-- A character before the first word belongs to it. -/
theorem SingleSpaced.cons (h : SingleSpaced cs) (hc : isBlank c = false) :
    SingleSpaced (c :: cs) := by
  obtain ⟨words, hwords, rfl⟩ := h
  cases words with
  | nil =>
    refine singleSpaced_of_no_blank fun d hd => ?_
    rwa [List.mem_singleton.mp hd]
  | cons word rest =>
    refine ⟨(c :: word) :: rest, fun word' hword' => ?_, ?_⟩
    · rcases List.mem_cons.mp hword' with rfl | hrest
      · refine ⟨List.cons_ne_nil _ _, fun d hd => ?_⟩
        rcases List.mem_cons.mp hd with rfl | hword
        · exact hc
        · exact (hwords word List.mem_cons_self).2 d hword
      · exact hwords word' (List.mem_cons_of_mem _ hrest)
    · cases rest with
      | nil => simp
      | cons next rest => simp [List.intercalate_cons_cons]

/-- A word may stand before a text that is not empty, with a single space between. -/
theorem SingleSpaced.word_cons (h : SingleSpaced cs) {word : List Char} (hword : IsWord word)
    (hne : cs ≠ []) : SingleSpaced (word ++ ' ' :: cs) := by
  obtain ⟨words, hwords, rfl⟩ := h
  cases words with
  | nil => exact absurd rfl hne
  | cons next rest =>
    refine ⟨word :: next :: rest, fun word' hword' => ?_, by simp [List.intercalate_cons_cons]⟩
    rcases List.mem_cons.mp hword' with rfl | hrest
    · exact hword
    · exact hwords word' hrest

/-- A character after the last word belongs to it. -/
theorem SingleSpaced.concat (h : SingleSpaced cs) (hc : isBlank c = false) :
    SingleSpaced (cs ++ [c]) := by
  obtain ⟨words, hwords, rfl⟩ := h
  induction words with
  | nil =>
    refine singleSpaced_of_no_blank fun d hd => ?_
    rwa [List.mem_singleton.mp hd]
  | cons word rest ih =>
    obtain ⟨hne, hchars⟩ := hwords word List.mem_cons_self
    cases rest with
    | nil =>
      refine singleSpaced_of_no_blank fun d hd => ?_
      rw [List.intercalate_singleton, List.mem_append, List.mem_singleton] at hd
      rcases hd with hword | rfl
      · exact hchars d hword
      · exact hc
    | cons next rest =>
      have hlater := ih fun word' hword' => hwords word' (List.mem_cons_of_mem _ hword')
      have hspaced := hlater.word_cons ⟨hne, hchars⟩ (by simp)
      simpa [List.intercalate_cons_cons] using hspaced

/-- The only blanks of a single-spaced text are spaces. -/
theorem SingleSpaced.eq_space (h : SingleSpaced cs) (hmem : c ∈ cs) (hblank : isBlank c = true) :
    c = ' ' := by
  obtain ⟨words, hwords, rfl⟩ := h
  obtain hspace | ⟨word, hword, hmem⟩ := Lists.mem_intercalate hmem
  · exact hspace
  · exact absurd hblank (by simp [(hwords word hword).2 c hmem])

theorem toList_joined_words (s : String) : (" ".intercalate (words s)).toList =
    [' '].intercalate (runs (fun c => !isBlank c) s.toList) := by
  rw [String.toList_intercalate, words, List.map_map]
  simp [Function.comp_def]

/-- The words of a text, put together, are single-spaced, and hold nothing else of the text. -/
theorem singleSpaced_words (s : String) :
    SingleSpaced (" ".intercalate (words s)).toList ∧
      ∀ c ∈ (" ".intercalate (words s)).toList, c = ' ' ∨ c ∈ s.toList := by
  have hwords {word : List Char} (hword : word ∈ runs (fun c => !isBlank c) s.toList) :
      IsWord word ∧ ∀ c ∈ word, c ∈ s.toList := by
    obtain ⟨hne, hchars⟩ := mem_runs hword
    exact ⟨⟨hne, fun c hc => by simpa using (hchars c hc).1⟩, fun c hc => (hchars c hc).2⟩
  rw [toList_joined_words]
  refine ⟨⟨_, fun word hword => (hwords hword).1, rfl⟩, fun c hc => ?_⟩
  obtain hspace | ⟨word, hword, hmem⟩ := Lists.mem_intercalate hc
  · exact .inl hspace
  · exact .inr ((hwords hword).2 c hmem)

/-- A character that is no blank occurs in the words of a text as often as in the text. -/
theorem count_words (s : String) (hc : isBlank c = false) :
    (" ".intercalate (words s)).toList.count c = s.toList.count c := by
  have hspace : c ≠ ' ' := by
    rintro rfl
    cases hc
  rw [toList_joined_words, Lists.count_intercalate hspace, flatten_runs,
    List.count_filter (by simp [hc])]

/-! ## Trimming -/

variable {kept : List Char} {s t : String}

/-- A text neither begins nor ends with a blank. -/
structure IsTrimmed (cs : List Char) : Prop where
  first : ∀ c ∈ cs.head?, isBlank c = false
  last : ∀ c ∈ cs.getLast?, isBlank c = false

theorem trimStart_eq_iff : trimStart cs = kept ↔ (∀ c ∈ kept.head?, isBlank c = false) ∧
    ∃ before, cs = before ++ kept ∧ ∀ c ∈ before, isBlank c = true :=
  Lists.dropWhile_eq_iff

theorem trimEnd_eq_iff : trimEnd cs = kept ↔ (∀ c ∈ kept.getLast?, isBlank c = false) ∧
    ∃ after, cs = kept ++ after ∧ ∀ c ∈ after, isBlank c = true := by
  rw [trimEnd, List.reverse_eq_iff, Lists.dropWhile_eq_iff, List.head?_reverse]
  refine and_congr_right fun _ => ⟨?_, ?_⟩
  · rintro ⟨dropped, heq, hblank⟩
    refine ⟨dropped.reverse, ?_, by simpa using hblank⟩
    rw [← List.reverse_inj, heq, List.reverse_append, List.reverse_reverse]
  · rintro ⟨after, rfl, hblank⟩
    exact ⟨after.reverse, List.reverse_append, by simpa using hblank⟩

/-- Trimming takes away just the blanks before and after a trimmed text. -/
theorem trim_eq_iff : trim s = t ↔ IsTrimmed t.toList ∧ ∃ before after,
    s.toList = before ++ t.toList ++ after ∧ (∀ c ∈ before, isBlank c = true) ∧
      ∀ c ∈ after, isBlank c = true := by
  rw [trim, ← String.toList_inj, String.toList_ofList]
  constructor
  · intro h
    obtain ⟨hlast, after, hstart, hafter⟩ := trimEnd_eq_iff.mp h
    obtain ⟨hfirst, before, hs, hbefore⟩ := trimStart_eq_iff.mp hstart
    refine ⟨⟨fun c hc => hfirst c ?_, hlast⟩, before, after, ?_, hbefore, hafter⟩
    · rw [List.head?_append, Option.mem_def.mp hc]
      rfl
    · rw [hs, List.append_assoc]
  · rintro ⟨⟨hfirst, hlast⟩, before, after, hs, hbefore, hafter⟩
    rw [hs]
    rcases List.eq_nil_or_concat t.toList with hnil | ⟨_, _, hcs⟩
    · rw [hnil, List.append_nil]
      have hblank : ∀ c ∈ before ++ after, isBlank c = true :=
        List.forall_mem_append.mpr ⟨hbefore, hafter⟩
      have hstart : trimStart (before ++ after) = [] :=
        trimStart_eq_iff.mpr ⟨nofun, _, (List.append_nil _).symm, hblank⟩
      rw [hstart]
      rfl
    · have hstart : trimStart (before ++ t.toList ++ after) = t.toList ++ after := by
        refine trimStart_eq_iff.mpr ⟨fun c hc => hfirst c ?_, before, List.append_assoc .., hbefore⟩
        rwa [List.head?_append_of_ne_nil _ (by simp [hcs])] at hc
      rw [hstart]
      exact trimEnd_eq_iff.mpr ⟨hlast, after, rfl, hafter⟩

theorem trim_eq_self_iff : trim s = s ↔ IsTrimmed s.toList := by
  rw [trim_eq_iff]
  exact ⟨And.left, fun h => ⟨h, [], [], by simp, nofun, nofun⟩⟩

theorem isTrimmed_trim (s : String) : IsTrimmed (trim s).toList :=
  (trim_eq_iff.mp rfl).1

theorem trim_trim (s : String) : trim (trim s) = trim s :=
  trim_eq_self_iff.mpr (isTrimmed_trim s)

theorem mem_of_mem_trim (h : c ∈ (trim s).toList) : c ∈ s.toList := by
  obtain ⟨_, before, after, hs, _⟩ := trim_eq_iff.mp (rfl : trim s = trim s)
  rw [hs]
  exact List.mem_append_left _ (List.mem_append_right _ h)

/-- A character that is no blank is not trimmed away. -/
theorem mem_trim_of_mem (h : c ∈ s.toList) (hc : isBlank c = false) : c ∈ (trim s).toList := by
  obtain ⟨_, before, after, hs, hbefore, hafter⟩ := trim_eq_iff.mp (rfl : trim s = trim s)
  rw [hs, List.mem_append, List.mem_append] at h
  rcases h with (hmem | hmem) | hmem
  · simp [hbefore c hmem] at hc
  · exact hmem
  · simp [hafter c hmem] at hc

/-- Nothing is left of a blank text only. -/
theorem trim_eq_empty_iff : trim s = "" ↔ allBlank s = true := by
  rw [allBlank, List.all_eq_true, trim_eq_iff]
  constructor
  · rintro ⟨_, before, after, hs, hbefore, hafter⟩
    rw [hs]
    simpa [or_imp, forall_and] using ⟨hbefore, hafter⟩
  · intro h
    exact ⟨⟨nofun, nofun⟩, s.toList, [], by simp, h, nofun⟩

/-- A single-spaced text begins with a character that is not blank. -/
theorem SingleSpaced.isBlank_head {rest : List Char} (h : SingleSpaced (c :: rest)) :
    isBlank c = false := by
  obtain ⟨words, hwords, hcs⟩ := h
  cases words with
  | nil => cases hcs
  | cons word words =>
    obtain ⟨hne, hchars⟩ := hwords word List.mem_cons_self
    cases word with
    | nil => exact absurd rfl hne
    | cons d word =>
      cases words with
      | nil =>
        rw [List.intercalate_singleton, List.cons.injEq] at hcs
        exact hcs.1 ▸ hchars d List.mem_cons_self
      | cons next words =>
        rw [List.intercalate_cons_cons, List.cons_append, List.cons_append, List.cons.injEq] at hcs
        exact hcs.1 ▸ hchars d List.mem_cons_self

/-- So does it end. -/
theorem SingleSpaced.isBlank_last {before : List Char} (h : SingleSpaced (before ++ [c])) :
    isBlank c = false := by
  obtain ⟨words, hwords, hcs⟩ := h
  have hlast : ([' '].intercalate words).getLast? = some c := by
    rw [← hcs, List.getLast?_concat]
  clear hcs
  induction words with
  | nil => cases hlast
  | cons word rest ih =>
    cases rest with
    | nil =>
      rw [List.intercalate_singleton] at hlast
      exact (hwords word List.mem_cons_self).2 c (List.mem_of_getLast? hlast)
    | cons next rest =>
      refine ih (fun word' hword' => hwords word' (List.mem_cons_of_mem _ hword')) ?_
      have hne : [' '].intercalate (next :: rest) ≠ [] := by
        have hnext := (hwords next (by simp)).1
        cases rest with
        | nil => simpa using hnext
        | cons last rest => simp [List.intercalate_cons_cons]
      rwa [List.intercalate_cons_cons, List.getLast?_append_of_ne_nil _ hne] at hlast

theorem SingleSpaced.isTrimmed (h : SingleSpaced cs) : IsTrimmed cs := by
  refine ⟨fun c hc => ?_, fun c hc => ?_⟩
  · obtain ⟨rest, rfl⟩ := List.head?_eq_some_iff.mp hc
    exact h.isBlank_head
  · obtain ⟨rest, rfl⟩ := List.getLast?_eq_some_iff.mp hc
    exact h.isBlank_last

/-- Trimming brings a single-spaced text back from behind some blanks. -/
theorem trim_append (h : SingleSpaced cs) {before : List Char}
    (hbefore : ∀ c ∈ before, isBlank c = true) :
    trim (String.ofList (before ++ cs)) = String.ofList cs := by
  refine trim_eq_iff.mpr ⟨?_, before, [], ?_, hbefore, nofun⟩
  · rw [String.toList_ofList]
    exact h.isTrimmed
  · rw [String.toList_ofList, String.toList_ofList, List.append_nil]

/-! ## Cutting -/

variable {separator : Char}

theorem splitAtChar_of_not_mem (h : separator ∉ cs) : splitAtChar separator cs = [cs] := by
  induction cs with
  | nil => rfl
  | cons c rest ih =>
    rw [List.mem_cons, not_or] at h
    rw [splitAtChar, if_neg (fun heq => h.1 heq.symm), ih h.2]

theorem splitAtChar_ne_nil (cs : List Char) : splitAtChar separator cs ≠ [] := by
  cases cs with
  | nil => exact List.cons_ne_nil _ _
  | cons c rest =>
    unfold splitAtChar
    split
    · exact List.cons_ne_nil _ _
    · split <;> exact List.cons_ne_nil _ _

/-- A text is cut before and after a separator as if these were texts of their own. -/
theorem splitAtChar_append_separator (cs rest : List Char) :
    splitAtChar separator (cs ++ separator :: rest) =
      splitAtChar separator cs ++ splitAtChar separator rest := by
  induction cs with
  | nil =>
    have hnil : splitAtChar separator [] = [[]] := rfl
    rw [hnil, List.nil_append, List.singleton_append, splitAtChar, if_pos rfl]
  | cons c cs ih =>
    rw [List.cons_append, splitAtChar, splitAtChar, ih]
    by_cases hc : c = separator
    · rw [if_pos hc, if_pos hc, List.cons_append]
    · obtain ⟨piece, pieces, hcs⟩ := List.exists_cons_of_ne_nil (splitAtChar_ne_nil cs)
      rw [if_neg hc, if_neg hc, hcs, List.cons_append, List.cons_append]

/-- What stands before the first separator is the first piece. -/
theorem splitAtChar_append_cons {piece : List Char} (h : separator ∉ piece) (rest : List Char) :
    splitAtChar separator (piece ++ separator :: rest) = piece :: splitAtChar separator rest := by
  rw [splitAtChar_append_separator, splitAtChar_of_not_mem h, List.singleton_append]

/-- Texts joined by the separator are cut one by one. -/
theorem splitAtChar_intercalate {parts : List (List Char)} (hne : parts ≠ []) :
    splitAtChar separator ([separator].intercalate parts) =
      parts.flatMap (splitAtChar separator) := by
  obtain ⟨first, rest, rfl⟩ := List.exists_cons_of_ne_nil hne
  induction rest generalizing first with
  | nil => rw [List.intercalate_singleton, List.flatMap_singleton]
  | cons second rest ih =>
    rw [List.intercalate_cons_cons, List.append_assoc, List.singleton_append,
      splitAtChar_append_separator, ih second (List.cons_ne_nil _ _),
      List.flatMap_cons (x := first)]

/-- Pieces joined by a separator that none of them has are cut apart again. -/
theorem splitAtChar_intercalate_of_not_mem {pieces : List (List Char)} (hne : pieces ≠ [])
    (h : ∀ piece ∈ pieces, separator ∉ piece) :
    splitAtChar separator ([separator].intercalate pieces) = pieces := by
  have hsame : pieces.flatMap (splitAtChar separator) = pieces.flatMap fun piece => [piece] :=
    List.flatMap_congr fun piece hpiece => splitAtChar_of_not_mem (h piece hpiece)
  rw [splitAtChar_intercalate hne, hsame, List.flatMap_singleton']

/-- No piece of a text has the separator, and put together by it they are the text. -/
theorem splitAtChar_spec (separator : Char) (cs : List Char) :
    (∀ piece ∈ splitAtChar separator cs, separator ∉ piece) ∧
      [separator].intercalate (splitAtChar separator cs) = cs := by
  induction cs with
  | nil => exact ⟨by simp [splitAtChar], rfl⟩
  | cons c rest ih =>
    obtain ⟨piece, pieces, hrest⟩ := List.exists_cons_of_ne_nil (splitAtChar_ne_nil rest)
    rw [hrest] at ih
    obtain ⟨hpieces, hjoined⟩ := ih
    rw [splitAtChar, hrest]
    by_cases hc : c = separator
    · rw [if_pos hc, List.intercalate_cons_cons, hjoined, hc]
      exact ⟨List.forall_mem_cons.mpr ⟨List.not_mem_nil, hpieces⟩, rfl⟩
    · rw [if_neg hc, Lists.intercalate_cons, List.cons_append, ← Lists.intercalate_cons, hjoined]
      obtain ⟨hfirst, hlater⟩ := List.forall_mem_cons.mp hpieces
      have hnew : separator ∉ c :: piece := fun hmem =>
        (List.mem_cons.mp hmem).elim (fun heq => hc heq.symm) hfirst
      exact ⟨List.forall_mem_cons.mpr ⟨hnew, hlater⟩, rfl⟩

/-- A text is cut into the pieces without the separator that make the text when they are joined. -/
theorem splitAtChar_eq_iff {pieces : List (List Char)} : splitAtChar separator cs = pieces ↔
    pieces ≠ [] ∧ (∀ piece ∈ pieces, separator ∉ piece) ∧ [separator].intercalate pieces = cs := by
  constructor
  · rintro rfl
    exact ⟨splitAtChar_ne_nil cs, splitAtChar_spec separator cs⟩
  · rintro ⟨hne, hpieces, rfl⟩
    exact splitAtChar_intercalate_of_not_mem hne hpieces

/-- Pieces that each end in a separator are cut apart. -/
theorem splitAtChar_flatMap {pieces : List (List Char)} {rest : List Char}
    (hpieces : ∀ piece ∈ pieces, separator ∉ piece) (hrest : separator ∉ rest) :
    splitAtChar separator (pieces.flatMap (fun piece => piece ++ [separator]) ++ rest) =
      pieces ++ [rest] := by
  induction pieces with
  | nil => exact splitAtChar_of_not_mem hrest
  | cons piece later ih =>
    have hlater := ih fun piece' hpiece' => hpieces piece' (List.mem_cons_of_mem _ hpiece')
    have hfirst := hpieces piece List.mem_cons_self
    rw [List.flatMap_cons, List.append_assoc, List.append_assoc, List.singleton_append,
      splitAtChar_append_cons hfirst, hlater, List.cons_append]

/-- Texts put together without a separator. -/
theorem toList_joined (parts : List String) :
    ("".intercalate parts).toList = parts.flatMap String.toList := by
  rw [String.toList_intercalate]
  cases parts with
  | nil => rfl
  | cons first rest =>
    rw [List.map_cons, Lists.intercalate_cons, List.flatMap_map]
    rfl

/-- Cutting a text leaves a suffix without the separator on the last piece. -/
theorem splitAtChar_append {suffix : List Char} (h : separator ∉ suffix) (cs : List Char) :
    ∃ pieces last, splitAtChar separator (cs ++ suffix) = pieces ++ [last ++ suffix] := by
  induction cs with
  | nil => exact ⟨[], [], splitAtChar_of_not_mem h⟩
  | cons c rest ih =>
    obtain ⟨pieces, last, hrest⟩ := ih
    rw [List.cons_append, splitAtChar, hrest]
    by_cases hc : c = separator
    · rw [if_pos hc]
      exact ⟨[] :: pieces, last, rfl⟩
    · rw [if_neg hc]
      cases pieces with
      | nil => exact ⟨[], c :: last, rfl⟩
      | cons piece pieces => exact ⟨(c :: piece) :: pieces, last, rfl⟩

end DesignTokens.Text
