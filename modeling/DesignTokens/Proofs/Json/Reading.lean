import DesignTokens.Proofs.Json.Written
/-!
# Written texts are read

The reader takes the text of a tree from the front of what it is given.  It yields the value that the
tree tells, unless an object repeats a key; then it refuses the first repeated key of the object that
closes first among those.  Leaves come first: blanks, strings, words and numbers.
-/

set_option autoImplicit false

namespace DesignTokens.Json

/-! ## Blanks -/

/-- A blank is part of no word, and no value begins with it. -/
theorem shapeOf_of_isSpace {c : Char} (h : isSpace c = true) :
    isWordChar c = false ∧ shapeOf c = none := by
  unfold isSpace at h
  simp only [Bool.or_eq_true, beq_iff_eq] at h
  rcases h with ((h | h) | h) | h
  · rw [h]
    exact ⟨rfl, rfl⟩
  · rw [h]
    exact ⟨rfl, rfl⟩
  · rw [h]
    exact ⟨rfl, rfl⟩
  · rw [h]
    exact ⟨rfl, rfl⟩

theorem isSpace_of_shapeOf {c : Char} {s : Shape} (h : shapeOf c = some s) : isSpace c = false := by
  rw [Bool.eq_false_iff]
  intro hspace
  rw [(shapeOf_of_isSpace hspace).2] at h
  cases h

namespace Blanks

variable (blanks : Blanks)

theorem skipSpace_append {cs : List Char} (h : ∀ c ∈ cs.head?, isSpace c = false) :
    skipSpace (blanks.chars ++ cs) = cs :=
  Lists.dropWhile_append_eq blanks.blank h

theorem skipSpace_append_cons {c : Char} (h : isSpace c = false) (cs : List Char) :
    skipSpace (blanks.chars ++ c :: cs) = c :: cs := by
  apply blanks.skipSpace_append
  intro d hd
  cases hd
  exact h

/-- What follows a value ends it, with blanks in between or without. -/
theorem ends_append_cons {c : Char} (h : isWordChar c = false) (cs : List Char) :
    Ends (blanks.chars ++ c :: cs) := by
  intro d hd
  cases hchars : blanks.chars with
  | nil =>
    rw [hchars] at hd
    cases hd
    exact h
  | cons blank rest =>
    rw [hchars] at hd
    cases hd
    exact (shapeOf_of_isSpace (blanks.blank _ (hchars ▸ List.mem_cons_self))).1

end Blanks

/-! ## Strings -/

namespace Marks

theorem closed_cons (mark : Mark) (marks : Marks) :
    closed (mark :: marks) = mark.text ++ closed marks := by
  rw [closed, List.flatMap_cons, List.append_assoc]
  rfl

theorem readUnits_closed (marks : Marks) (opening : Nat) (rest : List Char) :
    readUnits opening (marks.closed ++ rest) = .ok (marks.map Mark.value, rest) := by
  induction marks with
  | nil =>
    change readUnits opening ('"' :: rest) = _
    unfold readUnits
    rw [if_pos rfl]
    rfl
  | cons mark marks ih =>
    rw [closed_cons, List.append_assoc]
    cases mark with
    | plain c hquote hescape hcontrol =>
      change readUnits opening (c :: (closed marks ++ rest)) = _
      unfold readUnits
      rw [if_neg hquote, if_neg hescape, if_neg (Nat.not_le.mpr hcontrol), ih]
      rfl
    | short letter meaning h =>
      have hletter : letter ≠ 'u' := by
        intro hu
        rw [hu] at h
        cases h
      change readUnits opening ('\\' :: letter :: (closed marks ++ rest)) = _
      unfold readUnits
      simp only [Char.reduceEq, if_true, if_false, hletter, h, ih]
      rfl
    | unit h1 h2 h3 h4 value h =>
      -- The closing quote stands behind the digits if nothing else does.
      obtain ⟨next, after, hnext⟩ : ∃ next after, closed marks ++ rest = next :: after :=
        List.exists_cons_of_ne_nil (by simp [closed])
      rw [hnext] at ih ⊢
      change readUnits opening ('\\' :: 'u' :: h1 :: h2 :: h3 :: h4 :: next :: after) = _
      unfold readUnits
      simp only [Char.reduceEq, if_true, if_false, h, ih]
      rfl

theorem readPoints_closed (marks : Marks) (opening : Nat) (rest : List Char) :
    readPoints opening (marks.closed ++ rest) = .ok (marks.points, rest) := by
  rw [readPoints, readUnits_closed]
  rfl

theorem readString_closed (marks : Marks) (opening : Nat) (rest : List Char) :
    readString opening (marks.closed ++ rest) = .ok (textOf marks.points, rest) := by
  rw [readString, readPoints_closed]
  rfl

end Marks

/-! ## Numbers -/

theorem Ends.not_digit {cs : List Char} (h : Ends cs) : ∀ c ∈ cs.head?, c.isDigit = false := by
  intro c hc
  have hword := h c hc
  simp only [isWordChar, Char.isAlphanum, Bool.or_eq_false_iff] at hword
  exact hword.1.1.1.2

/-- A mark of a number is part of a word. -/
theorem Ends.ne_mark {cs : List Char} (h : Ends cs) {mark : Char} (hmark : isWordChar mark = true) :
    ∀ c ∈ cs.head?, c ≠ mark := by
  intro c hc heq
  rw [← heq, h c hc] at hmark
  cases hmark

theorem Digits.exists_cons (digits : Digits) :
    ∃ c cs, digits.chars = c :: cs ∧ c.isDigit = true := by
  obtain ⟨c, cs, hcons⟩ := List.exists_cons_of_ne_nil digits.ne_nil
  exact ⟨c, cs, hcons, digits.digit c (hcons ▸ List.mem_cons_self)⟩

namespace Numeral

section

variable {rest : List Char} (hrest : ∀ c ∈ rest.head?, c.isDigit = false)

include hrest

theorem readWhole_append (numeral : Numeral) :
    readWhole (numeral.whole.chars ++ rest) = some (numeral.whole.chars, rest) := by
  obtain ⟨c, cs, hcons, hdigit⟩ := numeral.whole.exists_cons
  by_cases hzero : c = '0'
  · have halone : numeral.whole.chars = ['0'] := numeral.leading (by rw [hcons, hzero]; rfl)
    rw [halone]
    rfl
  · have htake := Lists.takeWhile_append_eq numeral.whole.digit hrest
    have hdrop := Lists.dropWhile_append_eq numeral.whole.digit hrest
    rw [hcons] at htake hdrop ⊢
    unfold readWhole
    split
    · rename_i heq
      exact absurd (List.cons.inj heq).1 hzero
    · rename_i heq
      rw [← (List.cons.inj heq).1, if_pos hdigit, htake, hdrop]
    · rename_i heq
      cases heq

theorem readFraction_append (fraction : Option Digits) (hpoint : ∀ c ∈ rest.head?, c ≠ '.') :
    readFraction ((fraction.map Digits.afterPoint).getD [] ++ rest) =
      (fraction.map Digits.chars, rest) := by
  cases fraction with
  | none =>
    change readFraction rest = (none, rest)
    unfold readFraction
    split
    · exact absurd rfl (hpoint '.' rfl)
    · rfl
  | some digits =>
    change readFraction ('.' :: (digits.chars ++ rest)) = (some digits.chars, rest)
    unfold readFraction
    simp only [Lists.takeWhile_append_eq digits.digit hrest,
      Lists.dropWhile_append_eq digits.digit hrest]
    rw [if_neg]
    simpa using digits.ne_nil

end

variable {rest : List Char} (hrest : Ends rest)

include hrest

theorem readPower_append (power : Option Power) :
    readPower ((power.map Power.text).getD [] ++ rest) = (power.map Power.value, rest) := by
  cases power with
  | none =>
    change readPower rest = (none, rest)
    cases rest with
    | nil => rfl
    | cons c cs =>
      have hlower : c ≠ 'e' := hrest.ne_mark rfl c rfl
      have hupper : c ≠ 'E' := hrest.ne_mark rfl c rfl
      unfold readPower
      simp only [hlower, hupper, or_self, if_false]
  | some power =>
    obtain ⟨upper, sign, digits⟩ := power
    have hmark : (if upper then 'E' else 'e') = 'e' ∨ (if upper then 'E' else 'e') = 'E' := by
      cases upper with
      | true => exact .inr rfl
      | false => exact .inl rfl
    have htake := Lists.takeWhile_append_eq digits.digit hrest.not_digit
    have hdrop := Lists.dropWhile_append_eq digits.digit hrest.not_digit
    obtain ⟨c, cs, hcons, hdigit⟩ := digits.exists_cons
    have hempty : digits.chars.isEmpty = false := by rw [hcons]; rfl
    change readPower ((if upper then 'E' else 'e') :: (signText sign ++ digits.chars ++ rest)) = _
    unfold readPower
    change (if _ then _ else _) = _
    rw [if_pos hmark]
    split
    rename_i negative unsigned hsign
    have hparts : negative = (sign == some true) ∧ unsigned = digits.chars ++ rest := by
      cases sign with
      | some sign =>
        cases sign with
        | true =>
          cases hsign
          exact ⟨rfl, rfl⟩
        | false =>
          cases hsign
          exact ⟨rfl, rfl⟩
      | none =>
        rw [signText, List.nil_append, hcons] at hsign
        rw [hcons]
        split at hsign
        · rename_i heq
          exact absurd (List.cons.inj heq).1 (ne_of_isDigit hdigit rfl)
        · rename_i heq
          exact absurd (List.cons.inj heq).1 (ne_of_isDigit hdigit rfl)
        · cases hsign
          exact ⟨rfl, rfl⟩
    rw [hparts.1, hparts.2, htake, hdrop]
    simp [hempty, Power.value]

/-- A number is told apart from what follows it. -/
theorem readNumberText?_append (numeral : Numeral) :
    readNumberText? (numeral.text ++ rest) = some (numeral.parts, rest) := by
  have hpower : ∀ c ∈ ((numeral.power.map Power.text).getD [] ++ rest).head?,
      c.isDigit = false ∧ c ≠ '.' := by
    intro c hc
    cases hp : numeral.power with
    | none =>
      rw [hp] at hc
      exact ⟨hrest.not_digit c hc, hrest.ne_mark rfl c hc⟩
    | some power =>
      rw [hp] at hc
      cases hc
      cases power.upper with
      | true => exact ⟨rfl, by decide⟩
      | false => exact ⟨rfl, by decide⟩
  have hfraction : ∀ c ∈ ((numeral.fraction.map Digits.afterPoint).getD [] ++
      ((numeral.power.map Power.text).getD [] ++ rest)).head?, c.isDigit = false := by
    intro c hc
    cases hf : numeral.fraction with
    | none =>
      rw [hf] at hc
      exact (hpower c hc).1
    | some digits =>
      rw [hf] at hc
      cases hc
      rfl
  have hunsigned : (readWhole (numeral.whole.chars ++
      ((numeral.fraction.map Digits.afterPoint).getD [] ++
        ((numeral.power.map Power.text).getD [] ++ rest)))) = _ :=
    numeral.readWhole_append hfraction
  unfold readNumberText?
  split
  rename_i negative unsigned hsign
  have hparts : negative = numeral.negative ∧ unsigned = numeral.whole.chars ++
      ((numeral.fraction.map Digits.afterPoint).getD [] ++
        ((numeral.power.map Power.text).getD [] ++ rest)) := by
    unfold text at hsign
    simp only [List.append_assoc] at hsign
    cases hnegative : numeral.negative with
    | true =>
      rw [hnegative] at hsign
      cases hsign
      exact ⟨rfl, rfl⟩
    | false =>
      rw [hnegative] at hsign
      obtain ⟨c, cs, hcons, hdigit⟩ := numeral.whole.exists_cons
      rw [hcons] at hsign ⊢
      split at hsign
      · rename_i heq
        exact absurd (List.cons.inj heq).1 (ne_of_isDigit hdigit rfl)
      · cases hsign
        exact ⟨rfl, rfl⟩
  rw [hparts.1, hparts.2, hunsigned, Option.map_some]
  simp only [readFraction_append (fun c hc => (hpower c hc).1) _ (fun c hc => (hpower c hc).2),
    readPower_append hrest]
  rfl

end Numeral

/-! ## Words and numbers at the front of a text -/

/-- A number begins with a digit or with a minus and a digit. -/
theorem Numeral.exists_head (numeral : Numeral) : ∃ c cs, c.isDigit = true ∧
    (numeral.text = c :: cs ∨ numeral.text = '-' :: c :: cs) := by
  obtain ⟨c, cs, hcons, hdigit⟩ := numeral.whole.exists_cons
  unfold text
  rw [hcons]
  cases numeral.negative with
  | true => exact ⟨c, _, hdigit, .inr rfl⟩
  | false => exact ⟨c, _, hdigit, .inl rfl⟩

/-- No word begins like a number. -/
theorem Numeral.findSome?_wordValues (numeral : Numeral) (rest : List Char) :
    (wordValues.findSome? fun (word, value) =>
      (afterWord? word.toList (numeral.text ++ rest)).map (value, ·)) = none := by
  obtain ⟨c, cs, hdigit, htext | htext⟩ := numeral.exists_head
  · rw [htext]
    exact findSome?_wordValues_of_isDigit hdigit _
  · rw [htext]
    simp [wordValues, afterWord?, (ne_of_isDigit hdigit (d := 'I') rfl).symm]

theorem Numeral.readAtom_append (numeral : Numeral) {rest : List Char} (hrest : Ends rest) :
    readAtom (numeral.text ++ rest) = numeral.parts.value.map (·, rest) := by
  unfold readAtom
  rw [numeral.findSome?_wordValues, readNumberText?_append hrest]

theorem readAtom_word {text : String} {value : Json} (h : (text, value) ∈ wordValues)
    (rest : List Char) : readAtom (text.toList ++ rest) = .ok (value, rest) := by
  unfold readAtom
  simp only [wordValues, List.mem_cons, Prod.mk.injEq, List.not_mem_nil, or_false] at h
  rcases h with ⟨rfl, rfl⟩ | ⟨rfl, rfl⟩ | ⟨rfl, rfl⟩ | ⟨rfl, rfl⟩ | ⟨rfl, rfl⟩ | ⟨rfl, rfl⟩ <;>
    simp [wordValues, afterWord?]

/-! ## How values begin -/

theorem exists_head_of_mem_wordValues {text : String} {value : Json}
    (h : (text, value) ∈ wordValues) :
    ∃ first rest, text.toList = first :: rest ∧ shapeOf first = some .word := by
  simp only [wordValues, List.mem_cons, Prod.mk.injEq, List.not_mem_nil, or_false] at h
  rcases h with ⟨rfl, -⟩ | ⟨rfl, -⟩ | ⟨rfl, -⟩ | ⟨rfl, -⟩ | ⟨rfl, -⟩ | ⟨rfl, -⟩ <;>
    exact ⟨_, _, rfl, rfl⟩

theorem Numeral.exists_shape (numeral : Numeral) :
    ∃ first rest, numeral.text = first :: rest ∧ shapeOf first = some .word := by
  obtain ⟨c, cs, hdigit, htext | htext⟩ := numeral.exists_head
  · exact ⟨c, cs, htext, shapeOf_of_isDigit hdigit⟩
  · exact ⟨'-', c :: cs, htext, rfl⟩

/-- A value begins with a character that tells its shape. -/
theorem Written.exists_head (written : Written) :
    ∃ first rest s, written.text = first :: rest ∧ shapeOf first = some s := by
  cases written with
  | word text value h =>
    obtain ⟨first, rest, htext, hshape⟩ := exists_head_of_mem_wordValues h
    exact ⟨first, rest, .word, htext, hshape⟩
  | number numeral value h =>
    obtain ⟨first, rest, htext, hshape⟩ := numeral.exists_shape
    exact ⟨first, rest, .word, htext, hshape⟩
  | string marks => exact ⟨_, _, .string, rfl, rfl⟩
  | emptyArray inside => exact ⟨_, _, .array, rfl, rfl⟩
  | array before items => exact ⟨_, _, .array, rfl, rfl⟩
  | emptyObject inside => exact ⟨_, _, .object, rfl, rfl⟩
  | object before members => exact ⟨_, _, .object, rfl, rfl⟩

theorem WrittenItems.exists_head (items : WrittenItems) :
    ∃ first rest s, items.text = first :: rest ∧ shapeOf first = some s := by
  cases items with
  | last item after =>
    obtain ⟨first, rest, s, htext, hshape⟩ := item.exists_head
    exact ⟨first, rest ++ after.chars, s, by rw [WrittenItems.text, htext]; rfl, hshape⟩
  | cons item after before later =>
    obtain ⟨first, rest, s, htext, hshape⟩ := item.exists_head
    refine ⟨first, rest ++ after.chars ++ ',' :: (before.chars ++ later.text), s, ?_, hshape⟩
    rw [WrittenItems.text, htext]
    rfl

theorem WrittenMembers.exists_quote (members : WrittenMembers) :
    ∃ rest, members.text = '"' :: rest := by
  cases members with
  | last key afterKey before value after => exact ⟨_, rfl⟩
  | cons key afterKey before value after next rest => exact ⟨_, rfl⟩

/-- Blanks in front of a value are skipped. -/
theorem Blanks.skipSpace_append_of_shape (blanks : Blanks) {text rest : List Char}
    (h : ∃ first more s, text = first :: more ∧ shapeOf first = some s) :
    skipSpace (blanks.chars ++ (text ++ rest)) = text ++ rest := by
  obtain ⟨first, more, s, htext, hshape⟩ := h
  rw [htext]
  exact blanks.skipSpace_append_cons (isSpace_of_shapeOf hshape) (more ++ rest)

/-! ## What the reader does at each first character -/

section

variable (policy : KeyPolicy) (fuel : Nat) {cs inside left : List Char}

theorem readValue_string : readValue policy (fuel + 1) ('"' :: cs) =
    (readString (cs.length + 1) cs).map fun (s, left) => (.str s, left) := by
  rw [readValue]
  rfl

/-- A word or a number begins like no other value. -/
theorem readValue_of_shape_word {text : List Char}
    (h : ∃ first rest, text = first :: rest ∧ shapeOf first = some .word) :
    readValue policy (fuel + 1) (text ++ cs) = readAtom (text ++ cs) := by
  obtain ⟨first, rest, htext, hshape⟩ := h
  rw [htext, List.cons_append]
  unfold readValue
  split
  · rename_i heq
    cases heq
    cases hshape
  · rename_i heq
    cases heq
    cases hshape
  · rename_i heq
    cases heq
    cases hshape
  · rfl

theorem readValue_emptyArray (h : skipSpace cs = ']' :: left) :
    readValue policy (fuel + 1) ('[' :: cs) = .ok (.arr [], left) := by
  rw [readValue]
  simp only [h]

theorem readValue_array (h : skipSpace cs = inside) (hinside : ∀ left, inside ≠ ']' :: left) :
    readValue policy (fuel + 1) ('[' :: cs) =
      (readItems policy fuel inside).map fun (items, left) => (.arr items, left) := by
  rw [readValue, h]
  split
  · exact absurd rfl (hinside _)
  · rfl

theorem readValue_emptyObject (h : skipSpace cs = '\x7d' :: left) :
    readValue policy (fuel + 1) ('\x7b' :: cs) = .ok (.obj [], left) := by
  rw [readValue]
  simp only [h]

theorem readValue_object (h : skipSpace cs = inside) (hinside : ∀ left, inside ≠ '\x7d' :: left) :
    readValue policy (fuel + 1) ('\x7b' :: cs) =
      readMembers policy fuel inside >>= fun read =>
        policy.settle read.1 >>= fun fields => .ok (.obj fields, read.2) := by
  rw [readValue, h]
  split
  · exact absurd rfl (hinside _)
  · rfl

/-- A pair is followed by the closing brace or by another pair. -/
theorem readMembers_pair {key : CodePoints} {afterKey afterColon : List Char}
    (hkey : readPoints (cs.length + 1) cs = .ok (key, afterKey))
    (hcolon : skipSpace afterKey = ':' :: afterColon) (hinside : skipSpace afterColon = inside) :
    readMembers policy (fuel + 1) ('"' :: cs) = readValue policy fuel inside >>= fun read =>
      match skipSpace read.2 with
      | '\x7d' :: left => .ok ([(key, read.1)], left)
      | ',' :: afterComma =>
        (readMembers policy fuel (skipSpace afterComma)).map fun later =>
          ((key, read.1) :: later.1, later.2)
      | other => .error (.complaint .expectingComma other.length) := by
  rw [readMembers, List.length_cons, hkey]
  simp only [bind, Except.bind, hcolon, hinside]
  rfl

/-- An item is followed by the closing bracket or by another item. -/
theorem readItems_item : readItems policy (fuel + 1) cs =
    readValue policy fuel cs >>= fun read =>
      match skipSpace read.2 with
      | ']' :: left => .ok ([read.1], left)
      | ',' :: afterComma =>
        (readItems policy fuel (skipSpace afterComma)).map fun later =>
          (read.1 :: later.1, later.2)
      | other => .error (.complaint .expectingComma other.length) := by
  rw [readItems]
  rfl

end

/-! ## Outcomes -/

/-- What is read from a text with these objects. -/
def outcome {α : Type} (objects : List ObjectKeys) (result : α) : Except Stop α :=
  match firstRepeat objects with
  | some key => .error (.repeatedKey (textOf key))
  | none => .ok result

section

variable {α β : Type}

theorem outcome_map (objects : List ObjectKeys) (result : α) (f : α → β) :
    (outcome objects result).map f = outcome objects (f result) := by
  unfold outcome
  cases firstRepeat objects with
  | some key => rfl
  | none => rfl

/-- Objects that are read first are settled first. -/
theorem outcome_bind {first later : List ObjectKeys} {result : α} {next : β}
    {f : α → Except Stop β} (h : f result = outcome later next) :
    (outcome first result >>= f) = outcome (first ++ later) next := by
  unfold outcome firstRepeat at h ⊢
  rw [List.findSome?_append]
  cases first.findSome? fun object => firstRepeated [] object.keys with
  | some key => rfl
  | none => exact h

theorem outcome_bind_ok {objects : List ObjectKeys} {result : α} {next : β}
    {f : α → Except Stop β} (h : f result = .ok next) :
    (outcome objects result >>= f) = outcome objects next := by
  have hnone : f result = outcome [] next := h
  rw [outcome_bind hnone, List.append_nil]

end

/-- An object is settled by its own keys. -/
theorem settle_refuse (closing : Nat) (members : Members) :
    KeyPolicy.refuse.settle members =
      outcome [⟨closing, OrderedMap.keys members⟩] (fieldsOf members) := by
  have hone : firstRepeat [⟨closing, OrderedMap.keys members⟩] =
      firstRepeated [] (OrderedMap.keys members) :=
    List.findSome?_singleton
  cases hkey : firstRepeated [] (OrderedMap.keys members) with
  | some key => simp only [outcome, KeyPolicy.settle, hone, hkey]
  | none => simp only [outcome, KeyPolicy.settle, hone, hkey]

/-! ## Values -/

mutual

/-- The reader takes the text of a value, if its depth is bounded by twice the length. -/
theorem Written.readValue_append (written : Written) {fuel start : Nat} {rest : List Char}
    (hfuel : 2 * written.text.length ≤ fuel) (hrest : Ends rest) :
    readValue .refuse fuel (written.text ++ rest) =
      outcome (written.objects start) (written.value, rest) := by
  cases fuel with
  | zero =>
    obtain ⟨first, more, s, htext, -⟩ := written.exists_head
    rw [htext, List.length_cons] at hfuel
    omega
  | succ fuel =>
    match written with
    | .word text value h =>
      exact (readValue_of_shape_word _ _ (exists_head_of_mem_wordValues h)).trans
        (readAtom_word h rest)
    | .number numeral value h =>
      rw [Written.text, readValue_of_shape_word _ _ numeral.exists_shape,
        numeral.readAtom_append hrest, h]
      rfl
    | .string marks =>
      rw [Written.text, List.cons_append, readValue_string, marks.readString_closed]
      rfl
    | .emptyArray inside =>
      rw [Written.text, List.cons_append, List.append_assoc, List.singleton_append,
        readValue_emptyArray _ _ (inside.skipSpace_append_cons rfl rest)]
      rfl
    | .array before items =>
      rw [Written.text, List.length_cons, List.length_append, List.length_append,
        List.length_singleton] at hfuel
      have hskip : skipSpace (before.chars ++ (items.text ++ ']' :: rest)) =
          items.text ++ ']' :: rest :=
        before.skipSpace_append_of_shape items.exists_head
      have hinside (left : List Char) : items.text ++ ']' :: rest ≠ ']' :: left := by
        intro heq
        obtain ⟨first, more, s, htext, hshape⟩ := items.exists_head
        rw [htext] at heq
        rw [(List.cons.inj heq).1] at hshape
        cases hshape
      rw [Written.text, List.cons_append, List.append_assoc, List.append_assoc,
        List.singleton_append, readValue_array _ _ hskip hinside,
        items.readItems_append (by omega), outcome_map]
      rfl
    | .emptyObject inside =>
      rw [Written.text, List.cons_append, List.append_assoc, List.singleton_append,
        readValue_emptyObject _ _ (inside.skipSpace_append_cons rfl rest)]
      rfl
    | .object before members =>
      rw [Written.text, List.length_cons, List.length_append, List.length_append,
        List.length_singleton] at hfuel
      obtain ⟨more, htext⟩ := members.exists_quote
      have hskip : skipSpace (before.chars ++ (members.text ++ '\x7d' :: rest)) =
          members.text ++ '\x7d' :: rest := by
        rw [htext]
        exact before.skipSpace_append_cons rfl _
      have hinside (left : List Char) : members.text ++ '\x7d' :: rest ≠ '\x7d' :: left := by
        intro heq
        rw [htext] at heq
        exact absurd (List.cons.inj heq).1 (by decide)
      rw [Written.text, List.cons_append, List.append_assoc, List.append_assoc,
        List.singleton_append, readValue_object _ _ hskip hinside,
        members.readMembers_append (by omega)]
      -- The pairs are settled at the closing brace, behind all objects inside.
      apply outcome_bind
      rw [settle_refuse]
      exact outcome_bind_ok rfl

theorem WrittenItems.readItems_append (items : WrittenItems) {fuel start : Nat} {rest : List Char}
    (hfuel : 2 * items.text.length < fuel) :
    readItems .refuse fuel (items.text ++ ']' :: rest) =
      outcome (items.objects start) (items.values, rest) := by
  cases fuel with
  | zero => omega
  | succ fuel =>
    rw [readItems_item]
    match items with
    | .last item after =>
      rw [WrittenItems.text, List.length_append] at hfuel
      rw [WrittenItems.text, List.append_assoc, item.readValue_append (by omega)
        (after.ends_append_cons rfl rest)]
      apply outcome_bind_ok
      simp only [after.skipSpace_append_cons (c := ']') rfl]
      rfl
    | .cons item after before later =>
      rw [WrittenItems.text, List.length_append, List.length_append, List.length_cons,
        List.length_append] at hfuel
      rw [WrittenItems.text, List.append_assoc, List.append_assoc, List.cons_append,
        item.readValue_append (by omega) (after.ends_append_cons rfl _)]
      apply outcome_bind
      simp only [List.append_assoc, after.skipSpace_append_cons (c := ',') rfl,
        before.skipSpace_append_of_shape later.exists_head]
      rw [later.readItems_append (by omega), outcome_map]
      rfl

theorem WrittenMembers.readMembers_append (members : WrittenMembers) {fuel start : Nat}
    {rest : List Char} (hfuel : 2 * members.text.length < fuel) :
    readMembers .refuse fuel (members.text ++ '\x7d' :: rest) =
      outcome (members.objects start) (members.pairs, rest) := by
  cases fuel with
  | zero => omega
  | succ fuel =>
    match members with
    | .last key afterKey before value after =>
      simp only [WrittenMembers.text, List.length_append, List.length_cons] at hfuel
      simp only [WrittenMembers.text, List.cons_append, List.append_assoc]
      rw [readMembers_pair _ _ (key.readPoints_closed _ _)
        (afterKey.skipSpace_append_cons (c := ':') rfl _)
        (before.skipSpace_append_of_shape value.exists_head),
        value.readValue_append (by omega) (after.ends_append_cons rfl _)]
      apply outcome_bind_ok
      simp only [after.skipSpace_append_cons (c := '\x7d') rfl]
      rfl
    | .cons key afterKey before value after next later =>
      simp only [WrittenMembers.text, List.length_append, List.length_cons] at hfuel
      simp only [WrittenMembers.text, List.cons_append, List.append_assoc]
      rw [readMembers_pair _ _ (key.readPoints_closed _ _)
        (afterKey.skipSpace_append_cons (c := ':') rfl _)
        (before.skipSpace_append_of_shape value.exists_head),
        value.readValue_append (by omega) (after.ends_append_cons rfl _)]
      apply outcome_bind
      obtain ⟨more, htext⟩ := later.exists_quote
      have hskip : skipSpace (next.chars ++ (later.text ++ '\x7d' :: rest)) =
          later.text ++ '\x7d' :: rest := by
        rw [htext]
        exact next.skipSpace_append_cons rfl _
      simp only [after.skipSpace_append_cons (c := ',') rfl, hskip]
      rw [later.readMembers_append (by omega), outcome_map]
      rfl

end

/-! ## Whole texts -/

namespace WrittenText

/-- No text begins with a byte order mark. -/
theorem chars_ne_byteOrderMark (document : WrittenText) (rest : List Char) :
    document.chars ≠ '\uFEFF' :: rest := by
  intro heq
  obtain ⟨first, more, s, htext, hshape⟩ := document.body.exists_head
  unfold chars at heq
  cases hbefore : document.before.chars with
  | nil =>
    rw [hbefore, htext] at heq
    rw [(List.cons.inj heq).1] at hshape
    cases hshape
  | cons blank blanks =>
    have hblank := document.before.blank blank (hbefore ▸ List.mem_cons_self)
    rw [hbefore] at heq
    rw [(List.cons.inj heq).1] at hblank
    cases hblank

theorem readDocument_chars (document : WrittenText) :
    Json.readDocument .refuse document.chars = outcome document.objects document.value := by
  have hblanks : skipSpace document.after.chars = [] := by
    have hskip : skipSpace (document.after.chars ++ []) = [] :=
      document.after.skipSpace_append nofun
    rwa [List.append_nil] at hskip
  have hends : Ends document.after.chars := by
    intro c hc
    exact (shapeOf_of_isSpace (document.after.blank c (List.mem_of_mem_head? hc))).1
  have hfuel : 2 * document.body.text.length ≤ 2 * document.chars.length + 1 := by
    unfold chars
    rw [List.length_append, List.length_append]
    omega
  unfold Json.readDocument
  split
  · rename_i heq
    exact absurd heq (document.chars_ne_byteOrderMark _)
  · have hskip : skipSpace document.chars = document.body.text ++ document.after.chars :=
      document.before.skipSpace_append_of_shape document.body.exists_head
    have hread : readValue .refuse (2 * document.chars.length + 1)
        (document.body.text ++ document.after.chars) =
          outcome document.objects (document.value, document.after.chars) :=
      document.body.readValue_append hfuel hends
    rw [hskip, hread]
    apply outcome_bind_ok
    simp only [hblanks]
    rfl

/-- A text is refused for its first repeated key, if any, and otherwise read as the value that its
tree tells. -/
theorem read_string (document : WrittenText) : read .refuse document.string =
    match firstRepeat document.objects with
    | some key => .error (.repeatedKey (textOf key))
    | none => .ok document.value := by
  unfold read string
  simp only
  rw [String.toList_ofList, readDocument_chars]
  unfold outcome
  cases firstRepeat document.objects with
  | some key => rfl
  | none => rfl

end WrittenText

end DesignTokens.Json
