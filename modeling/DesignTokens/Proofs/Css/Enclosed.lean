import DesignTokens.Proofs.Css.Lexical
import DesignTokens.Proofs.Css.Rule
import DesignTokens.Proofs.Text.Words
import Mathlib.Algebra.Group.Nat.Even
/-!
# Quotes and comments in values

Which texts are written such that a reader of the value is outside of any string and comment at its
end, and what a reader makes of a rule block otherwise.  A document refuses the three delimiters
only: a quote that is not closed, a comment that is not ended and a backslash at the end are
accepted, written as they are, and take the semicolon behind them into the value.
-/

set_option autoImplicit false

namespace DesignTokens.Css

variable {s text : String} {type : TokenType} {c : Char} {cs rest : List Char} {state : Lexing}

/-! ## Texts that begin nothing -/

/-- A text that begins neither an escape nor a comment nor a string leaves its reader outside. -/
theorem Lexing.foldl_next_of_opened (h : ∀ c ∈ cs, opened c = .outside) :
    cs.foldl next .outside = .outside := by
  induction cs with
  | nil => rfl
  | cons c cs ih =>
    have hnext : next .outside c = .outside := h c List.mem_cons_self
    rw [List.foldl_cons, hnext]
    exact ih fun d hd => h d (List.mem_cons_of_mem _ hd)

/-- A class of characters without quotes, backslashes and slashes begins nothing. -/
theorem Lexing.opened_of {p : Char → Bool} (hp : ['"', '\'', '\\', '/'].any p = false)
    (h : p c = true) : opened c = .outside := by
  have hne {d : Char} (hd : d ∈ ['"', '\'', '\\', '/']) : c ≠ d := by
    rintro rfl
    exact List.any_eq_false.mp hp c hd h
  unfold opened
  rw [if_neg (hne (by simp)), if_neg (hne (by simp)), if_neg (hne (by simp)),
    if_neg (hne (by simp))]

theorem endsOutside_of_isWord (h : Json.IsWord text.toList) : EndsOutside text := by
  unfold EndsOutside Lexing.after
  rw [Lexing.foldl_next_of_opened fun c hc => Lexing.opened_of (by decide) (h c hc)]
  rfl

/-! ## Values -/

/-- Whether a text is written with all its strings and comments closed: a font family that gets
quotes closes the string that they begin, a named font weight is a number, and any other text is
complete by itself. -/
def IsEnclosed (s : String) (type : TokenType) : Prop :=
  let text := normalizeText s
  match type with
  | .fontFamily =>
    if needsQuotes text = true then ClosesString .double (text.toList ++ ['"'])
    else Complete text.toList
  | .fontWeight => fontWeight? text ≠ none ∨ Complete text.toList
  | _ => Complete text.toList

/-- Quotes around a text are closed if the text and the last quote close the first one. -/
theorem endsOutside_quoted (text : String) :
    EndsOutside ("\"" ++ text ++ "\"") ↔ ClosesString .double (text.toList ++ ['"']) := by
  have hlist : ("\"" ++ text ++ "\"").toList = Quote.double.char :: (text.toList ++ ['"']) := by
    simp [Quote.char]
  rw [endsOutside_iff, hlist, complete_quote]

theorem endsOutside_fontWeight {number : String} (h : fontWeight? s = some number) :
    EndsOutside number := by
  have hnumbers : ∀ pair ∈ fontWeights, Json.IsWord pair.2.toList := by decide
  obtain ⟨pair, hfind, rfl⟩ := Option.map_eq_some_iff.mp h
  exact endsOutside_of_isWord (hnumbers pair (List.mem_of_find?_eq_some hfind))

theorem endsOutside_renderText_iff (s : String) (type : TokenType) :
    EndsOutside (renderText s type) ↔ IsEnclosed s type := by
  unfold renderText IsEnclosed
  cases type
  case fontFamily =>
    simp only
    split
    · exact endsOutside_quoted _
    · exact endsOutside_iff
  case fontWeight =>
    cases hweight : fontWeight? (normalizeText s) with
    | none => simp [endsOutside_iff, hweight]
    | some number =>
      have hends := endsOutside_fontWeight hweight
      simp [hends, hweight]
  all_goals exact endsOutside_iff

/-! ## Texts with double quotes only -/

/-- A text whose only characters of a meaning to a reader are double quotes and slashes. -/
structure IsDoubleQuoted (cs : List Char) : Prop where
  not_escape : '\\' ∉ cs
  not_single : '\'' ∉ cs
  not_star : '*' ∉ cs
  not_break : ∀ c ∈ cs, isLineBreak c = false

theorem IsDoubleQuoted.of_cons (h : IsDoubleQuoted (c :: cs)) : IsDoubleQuoted cs where
  not_escape hmem := h.not_escape (List.mem_cons_of_mem _ hmem)
  not_single hmem := h.not_single (List.mem_cons_of_mem _ hmem)
  not_star hmem := h.not_star (List.mem_cons_of_mem _ hmem)
  not_break d hmem := h.not_break d (List.mem_cons_of_mem _ hmem)

/-- Outside, a double quote begins a string, and any other such character leaves outside. -/
theorem IsDoubleQuoted.next_outside (h : IsDoubleQuoted (c :: cs))
    (hstate : state.isOutside = true) :
    if c = '"' then state.next c = .quoted .double else (state.next c).isOutside = true := by
  have hopened : state.next c = Lexing.opened c := by
    have hstar : c ≠ '*' := fun heq => h.not_star (heq ▸ List.mem_cons_self)
    cases state with
    | outside => rfl
    | slash => exact if_neg hstar
    | _ => cases hstate
  have hsingle : c ≠ '\'' := fun heq => h.not_single (heq ▸ List.mem_cons_self)
  have hescape : c ≠ '\\' := fun heq => h.not_escape (heq ▸ List.mem_cons_self)
  rw [hopened]
  unfold Lexing.opened
  rw [if_neg hsingle, if_neg hescape]
  split
  · rfl
  · split <;> rfl

/-- In a string, a double quote ends it, and any other such character stays in it. -/
theorem IsDoubleQuoted.next_quoted (h : IsDoubleQuoted (c :: cs)) :
    Lexing.next (.quoted .double) c = if c = '"' then .outside else .quoted .double := by
  have hescape : c ≠ '\\' := fun heq => h.not_escape (heq ▸ List.mem_cons_self)
  have hends : (c = Quote.double.char ∨ isLineBreak c = true) ↔ c = '"' := by
    simp [h.not_break c List.mem_cons_self, Quote.char]
  simp only [Lexing.next, hends, if_neg hescape]

/-- With double quotes only, a reader is outside behind an even number of them, and in a string
behind an odd number. -/
theorem IsDoubleQuoted.isOutside_foldl (h : IsDoubleQuoted cs) :
    (∀ state : Lexing, state.isOutside = true →
      ((cs.foldl Lexing.next state).isOutside = true ↔ Even (cs.count '"'))) ∧
    ((cs.foldl Lexing.next (.quoted .double)).isOutside = true ↔ ¬ Even (cs.count '"')) := by
  induction cs with
  | nil => exact ⟨fun state hstate => by simpa using hstate, by simp [Lexing.isOutside]⟩
  | cons c cs ih =>
    obtain ⟨houtside, hquoted⟩ := ih h.of_cons
    have hin := h.next_quoted
    by_cases hc : c = '"'
    · have hcount : (c :: cs).count '"' = cs.count '"' + 1 := by
        rw [hc, List.count_cons_self]
      rw [if_pos hc] at hin
      rw [hcount, Nat.even_add_one, not_not, List.foldl_cons, hin]
      refine ⟨fun state hstate => ?_, houtside .outside rfl⟩
      have hout := h.next_outside hstate
      rw [if_pos hc] at hout
      rw [List.foldl_cons, hout]
      exact hquoted
    · rw [if_neg hc] at hin
      rw [List.count_cons_of_ne hc, List.foldl_cons, hin]
      refine ⟨fun state hstate => ?_, hquoted⟩
      have hout := h.next_outside hstate
      rw [if_neg hc] at hout
      exact houtside _ hout

theorem isDoubleQuoted_normalizeText (hescape : '\\' ∉ s.toList) (hsingle : '\'' ∉ s.toList)
    (hstar : '*' ∉ s.toList) : IsDoubleQuoted (normalizeText s).toList := by
  obtain ⟨hspaced, hchars⟩ := Text.singleSpaced_words s
  have hno {c : Char} (hc : c ∉ s.toList) (hspace : c ≠ ' ') :
      c ∉ (normalizeText s).toList := fun hmem => (hchars c hmem).elim hspace hc
  refine ⟨hno hescape (by decide), hno hsingle (by decide), hno hstar (by decide), ?_⟩
  intro c hmem
  rw [Bool.eq_false_iff]
  intro hbreak
  have hblank : Text.isBlank c = true := by
    unfold isLineBreak at hbreak
    simp only [Bool.or_eq_true, beq_iff_eq] at hbreak
    rcases hbreak with (rfl | rfl) | rfl <;> decide
  rw [hspaced.eq_space hmem hblank] at hbreak
  cases hbreak

/-- The name of a font weight has no quote. -/
theorem not_mem_of_fontWeight {number : String} (h : fontWeight? s = some number) :
    '"' ∉ s.toList := by
  have hnames : ∀ pair ∈ fontWeights, '"' ∉ pair.1.toList := by decide
  obtain ⟨pair, hfind, -⟩ := Option.map_eq_some_iff.mp h
  have hsame := List.find?_some hfind
  simp only [beq_iff_eq] at hsame
  intro hmem
  refine hnames pair (List.mem_of_find?_eq_some hfind) ?_
  rw [hsame, String.toList_ofList]
  exact List.mem_map.mpr ⟨'"', hmem, by decide⟩

/-- A text with double quotes only is written with its strings closed, whatever its type, if it has
an even number of them. -/
theorem endsOutside_renderText_iff_even (hescape : '\\' ∉ s.toList) (hsingle : '\'' ∉ s.toList)
    (hstar : '*' ∉ s.toList) (type : TokenType) :
    EndsOutside (renderText s type) ↔ Even (s.toList.count '"') := by
  have hquotes := isDoubleQuoted_normalizeText hescape hsingle hstar
  have hcount : (normalizeText s).toList.count '"' = s.toList.count '"' :=
    Text.count_words s (by decide)
  have hplain : EndsOutside (normalizeText s) ↔ Even (s.toList.count '"') := by
    rw [← hcount]
    exact hquotes.isOutside_foldl.1 .outside rfl
  unfold renderText
  simp only
  split
  · split
    · -- The quotes around the text are two more.
      have hlist : ("\"" ++ normalizeText s ++ "\"").toList =
          '"' :: ((normalizeText s).toList ++ ['"']) := by
        simp
      have hsurrounded : IsDoubleQuoted ('"' :: ((normalizeText s).toList ++ ['"'])) := by
        refine ⟨?_, ?_, ?_, ?_⟩
        · simp [hquotes.not_escape]
        · simp [hquotes.not_single]
        · simp [hquotes.not_star]
        · intro c hmem
          rcases List.mem_cons.mp hmem with rfl | hmem
          · rfl
          · rcases List.mem_append.mp hmem with hmem | hmem
            · exact hquotes.not_break c hmem
            · rw [List.mem_singleton.mp hmem]
              rfl
      have heven := hsurrounded.isOutside_foldl.1 .outside rfl
      rw [List.count_cons_self, List.count_append, hcount, List.count_singleton_self,
        Nat.even_add_one, Nat.even_add_one, not_not] at heven
      unfold EndsOutside
      rw [hlist]
      exact heven
    · exact hplain
  · cases hweight : fontWeight? (normalizeText s) with
    | none => exact hplain
    | some number =>
      refine iff_of_true (endsOutside_fontWeight hweight) ?_
      rw [← hcount, List.count_eq_zero.mpr (not_mem_of_fontWeight hweight)]
      exact Even.zero
  · exact hplain

/-! ## Reading a rule block -/

/-- The pieces of a rule block from where its reader stands: a semicolon outside ends a piece, and a
closing brace outside ends the block. -/
def cut (state : Lexing) : List Char → List (List Char)
  | [] => [[]]
  | c :: rest =>
    if state.isOutside = true ∧ c = '\x7d' then [[]]
    else if state.isOutside = true ∧ c = ';' then [] :: cut (state.next c) rest
    else
      match cut (state.next c) rest with
      | [] => [[c]]
      | piece :: pieces => (c :: piece) :: pieces

/-- The declarations in pieces of a rule block: every piece that is not blank is one. -/
def declarationsIn (pieces : List (List Char)) : List Declaration :=
  (pieces.filter fun piece => !piece.all Text.isBlank).map readDeclaration

/-- The declarations that a reader finds in a rule block behind its first opening brace. -/
def readBlock (text : String) : List Declaration :=
  declarationsIn (cut .outside (Decimal.splitAtMark '\x7b' text.toList).2)

theorem cut_ne_nil (state : Lexing) (cs : List Char) : cut state cs ≠ [] := by
  cases cs with
  | nil => exact List.cons_ne_nil _ _
  | cons c rest =>
    unfold cut
    split
    · exact List.cons_ne_nil _ _
    · split
      · exact List.cons_ne_nil _ _
      · split <;> exact List.cons_ne_nil _ _

/-- A character that ends nothing belongs to the first piece. -/
theorem cut_cons (hbrace : ¬ (state.isOutside = true ∧ c = '\x7d'))
    (hsemicolon : ¬ (state.isOutside = true ∧ c = ';')) (rest : List Char) :
    ∃ first later, cut (state.next c) rest = first :: later ∧
      cut state (c :: rest) = (c :: first) :: later := by
  obtain ⟨first, later, hrest⟩ := List.exists_cons_of_ne_nil (cut_ne_nil (state.next c) rest)
  refine ⟨first, later, hrest, ?_⟩
  rw [cut, if_neg hbrace, if_neg hsemicolon, hrest]

/-- A text without delimiters belongs to the first piece. -/
theorem cut_append (h : ∀ c ∈ cs, Document.isDelimiter c = false) (state : Lexing)
    (rest : List Char) :
    ∃ first later, cut (cs.foldl Lexing.next state) rest = first :: later ∧
      cut state (cs ++ rest) = (cs ++ first) :: later := by
  induction cs generalizing state with
  | nil =>
    obtain ⟨first, later, hrest⟩ := List.exists_cons_of_ne_nil (cut_ne_nil state rest)
    exact ⟨first, later, hrest, hrest⟩
  | cons c cs ih =>
    have hc := h c List.mem_cons_self
    have hbrace : ¬ (state.isOutside = true ∧ c = '\x7d') := by
      rintro ⟨-, rfl⟩
      cases hc
    have hsemicolon : ¬ (state.isOutside = true ∧ c = ';') := by
      rintro ⟨-, rfl⟩
      cases hc
    obtain ⟨first, later, hrest, hcs⟩ :=
      ih (fun d hd => h d (List.mem_cons_of_mem _ hd)) (state.next c)
    obtain ⟨first', later', hnext, hcons⟩ := cut_cons hbrace hsemicolon (cs ++ rest)
    rw [hcs] at hnext
    cases hnext
    exact ⟨first, later, hrest, hcons⟩

variable {d : Declaration} {minify : Bool}

/-- At the end of a piece, its reader stands where it stands at the end of the value. -/
theorem foldl_next_piece (h : d.Contained) (minify : Bool) :
    (piece minify d).foldl Lexing.next .outside = Lexing.after d.value.toList := by
  have hbefore : ∀ c ∈ lead minify ++ d.name.toList ++ ':' :: gap minify,
      Lexing.opened c = .outside := by
    intro c hmem
    rcases List.mem_append.mp hmem with hmem | hmem
    · rcases List.mem_append.mp hmem with hlead | hname
      · exact Lexing.opened_of (by decide) (isBlank_of_mem_lead minify hlead)
      · exact Lexing.opened_of (by decide) (h.name.char hname)
    · rcases List.mem_cons.mp hmem with rfl | hgap
      · rfl
      · exact Lexing.opened_of (by decide) (isBlank_of_mem_gap minify hgap)
  have hpiece : piece minify d =
      (lead minify ++ d.name.toList ++ ':' :: gap minify) ++ d.value.toList := by
    simp [piece]
  rw [hpiece, List.foldl_append, Lexing.foldl_next_of_opened hbefore]
  rfl

theorem piece_not_blank (minify : Bool) (d : Declaration) (rest : List Char) :
    (piece minify d ++ rest).all Text.isBlank = false := by
  rw [List.all_eq_false]
  refine ⟨':', ?_, by decide⟩
  simp [piece]

/-- A piece with a semicolon behind its value is no declaration without one in its value. -/
theorem readDeclaration_ne (h : d.Contained) (rest : List Char) :
    readDeclaration (piece minify d ++ ';' :: rest) ≠ d := by
  have hvalue : ';' ∈ (readDeclaration (piece minify d ++ ';' :: rest)).value.toList := by
    unfold readDeclaration
    rw [splitAtMark_piece h]
    exact Text.mem_trim_of_mem (by simp) (by decide)
  intro heq
  rw [heq] at hvalue
  exact absurd (h.value.not_delimiter _ hvalue) (by decide)

/-- The declarations of a body are read back from its pieces if just no value takes the semicolon
behind it. -/
theorem declarationsIn_body {declarations : List Declaration}
    (h : ∀ d ∈ declarations, d.Contained) (minify : Bool) :
    declarationsIn (cut .outside (body minify declarations ++ ['\x7d'])) = declarations ↔
      ∀ d ∈ declarations, EndsOutside d.value := by
  induction declarations with
  | nil =>
    refine iff_of_true ?_ nofun
    cases minify <;> decide
  | cons d declarations ih =>
    obtain ⟨hd, hlater⟩ := List.forall_mem_cons.mp h
    have hbody : body minify (d :: declarations) ++ ['\x7d'] =
        piece minify d ++ ';' :: (body minify declarations ++ ['\x7d']) := by
      simp [body]
    have hplain : ∀ c ∈ piece minify d, Document.isDelimiter c = false :=
      fun c hc => isDelimiter_of_mem_piece hd hc
    obtain ⟨first, later, hrest, hcut⟩ :=
      cut_append hplain .outside (';' :: (body minify declarations ++ ['\x7d']))
    rw [foldl_next_piece hd] at hrest
    rw [hbody, hcut, List.forall_mem_cons]
    have hread : declarationsIn ((piece minify d ++ first) :: later) =
        readDeclaration (piece minify d ++ first) :: declarationsIn later := by
      unfold declarationsIn
      rw [List.filter_cons_of_pos (by rw [piece_not_blank]; rfl), List.map_cons]
    rw [hread]
    by_cases hends : EndsOutside d.value
    · -- Outside, the semicolon ends the piece.
      have hclosed : cut (Lexing.after d.value.toList)
          (';' :: (body minify declarations ++ ['\x7d'])) =
          [] :: cut .outside (body minify declarations ++ ['\x7d']) := by
        have hnext : (Lexing.after d.value.toList).next ';' = .outside := by
          unfold EndsOutside at hends
          cases hstate : Lexing.after d.value.toList with
          | outside => rfl
          | slash => rfl
          | _ => rw [hstate] at hends; cases hends
        rw [cut, if_neg (by simp), if_pos ⟨hends, rfl⟩, hnext]
      rw [hclosed] at hrest
      obtain ⟨rfl, rfl⟩ := List.cons.inj hrest
      rw [List.append_nil, readDeclaration_piece hd, List.cons.injEq]
      exact ⟨fun hsame => ⟨hends, (ih hlater).mp hsame.2⟩,
        fun hall => ⟨rfl, (ih hlater).mpr hall.2⟩⟩
    · -- Inside, it belongs to the value.
      have hopen {c : Char} : ¬ ((Lexing.after d.value.toList).isOutside = true ∧ ';' = c) :=
        fun hboth => hends hboth.1
      obtain ⟨first', later', -, hcons⟩ :=
        cut_cons hopen hopen (body minify declarations ++ ['\x7d'])
      rw [hcons] at hrest
      obtain ⟨rfl, rfl⟩ := List.cons.inj hrest
      refine iff_of_false (fun hsame => ?_) fun hall => hends hall.1
      exact readDeclaration_ne hd first' (List.cons.inj hsame).1

/-- A rule block of contained declarations is read as them if just all values end outside. -/
theorem readBlock_rule_iff (minify : Bool) {selector : String}
    (hselector : '\x7b' ∉ selector.toList) {declarations : List Declaration}
    (h : ∀ d ∈ declarations, d.Contained) :
    readBlock (rule minify selector declarations) = declarations ↔
      ∀ d ∈ declarations, EndsOutside d.value := by
  unfold readBlock
  rw [splitAtMark_rule minify hselector]
  exact declarationsIn_body h minify

/-! ## Documents -/

/-- A declaration writes a literal of tokens, as a value of some type. -/
structure Declaration.Writes (tokens : List Token) (d : Declaration) : Prop where
  name : IsPropertyName d.name
  value : ∃ tok ∈ tokens, ∃ literal, tok.value = .literal literal ∧
    ∃ type, d.value = renderValue literal type

theorem Declaration.Writes.contained {name : DocumentName} {document : Datum} {tokens : List Token}
    (h : Document.flatten name document = .ok tokens) (hd : d.Writes tokens) : d.Contained := by
  obtain ⟨tok, hmem, literal, hliteral, type, hvalue⟩ := hd.value
  refine ⟨hd.name, ?_⟩
  rw [hvalue]
  exact contained_renderValue (Document.contained_of_mem_flatten h hmem hliteral) type

/-- Of the texts in an accepted document, those are written with all strings and comments closed
that are complete by themselves, or complete the quotes that they get; where there are double quotes
only, it takes an even number of them.  A rule block of such values is read as its declarations, in
both layouts, if just all of them end outside of strings and comments. -/
theorem values_end_outside (name : DocumentName) (document : Datum) (tokens : List Token)
    (haccepted : Document.flatten name document = .ok tokens) :
    (∀ tok ∈ tokens, ∀ s, tok.value = .literal (.str s) → ∀ type,
      (EndsOutside (renderValue (.str s) type) ↔ IsEnclosed s type) ∧
      ('\\' ∉ s.toList → '\'' ∉ s.toList → '*' ∉ s.toList →
        (EndsOutside (renderValue (.str s) type) ↔ Even (s.toList.count '"')))) ∧
    ∀ minify selector, '\x7b' ∉ selector.toList → ∀ declarations : List Declaration,
      (∀ d ∈ declarations, d.Writes tokens) →
      (readBlock (rule minify selector declarations) = declarations ↔
        ∀ d ∈ declarations, EndsOutside d.value) := by
  refine ⟨fun _ _ s _ type => ⟨?_, ?_⟩, ?_⟩
  · exact endsOutside_renderText_iff s type
  · intro hescape hsingle hstar
    exact endsOutside_renderText_iff_even hescape hsingle hstar type
  · intro minify selector hselector declarations hwrites
    exact readBlock_rule_iff minify hselector fun d hd => (hwrites d hd).contained haccepted

/-- A font family of two words, and a text with a quote that is not closed. -/
def openDocument : Datum :=
  .map [(.str "a", .map [(.str "type", .str "fontFamily"), (.str "value", .str "Foo Bar")]),
    (.str "b", .map [(.str "value", .str "'open")])]

/-- The tokens of that document. -/
def openTokens : List Token :=
  [⟨["a"], some .fontFamily, .literal (.str "Foo Bar"), "base", none⟩,
    ⟨["b"], some .string, .literal (.str "'open"), "base", none⟩]

theorem values_end_outside_openDocument :
    Document.flatten ⟨"base", "base.json"⟩ openDocument = .ok openTokens ∧
      EndsOutside (renderValue (.str "Foo Bar") .fontFamily) ∧
      readBlock (rule true ":root" [⟨"--a", "\"Foo Bar\""⟩]) = [⟨"--a", "\"Foo Bar\""⟩] ∧
      ¬ IsEnclosed "'open" .string := by
  have haccepted : Document.flatten ⟨"base", "base.json"⟩ openDocument = .ok openTokens := by
    rfl
  obtain ⟨hvalues, hblock⟩ :=
    values_end_outside ⟨"base", "base.json"⟩ openDocument openTokens haccepted
  obtain ⟨-, heven⟩ := hvalues _ List.mem_cons_self "Foo Bar" rfl .fontFamily
  obtain ⟨hopen, -⟩ := hvalues ⟨["b"], some .string, .literal (.str "'open"), "base", none⟩
    (by decide) "'open" rfl .string
  have hquoted := (heven (by decide) (by decide) (by decide)).mpr (by decide)
  refine ⟨haccepted, hquoted, (hblock true ":root" (by decide) _ ?_).mpr ?_, ?_⟩
  · rintro d hd
    rw [List.mem_singleton.mp hd]
    exact ⟨⟨['a'], by decide, List.forall_mem_singleton.mpr (by decide), by decide⟩, _,
      List.mem_cons_self, _, rfl, .fontFamily, by decide⟩
  · decide
  · exact fun henclosed => absurd (hopen.mpr henclosed) (by decide)

/-- An accepted text can take the next declaration into its value, in both layouts, and so can a
font family that gets quotes around one of its own. -/
theorem open_quote_takes_next_declaration :
    Document.flatten ⟨"base", "base.json"⟩ openDocument = .ok openTokens ∧
      renderValue (.str "'open") .string = "'open" ∧ ¬ EndsOutside "'open" ∧
      readBlock (rule true ":root" [⟨"--b", "'open"⟩, ⟨"--c", "red"⟩]) =
        [⟨"--b", "'open;--c:red;\x7d"⟩] ∧
      readBlock (rule false ":root" [⟨"--b", "'open"⟩, ⟨"--c", "red"⟩]) =
        [⟨"--b", "'open;\n  --c: red"⟩] ∧
      renderValue (.str "Foo \"Bar") .fontFamily = "\"Foo \"Bar\"" ∧
      ¬ EndsOutside "\"Foo \"Bar\"" := by
  refine ⟨rfl, ?_, ?_, ?_, ?_, ?_, ?_⟩ <;> decide

end DesignTokens.Css
