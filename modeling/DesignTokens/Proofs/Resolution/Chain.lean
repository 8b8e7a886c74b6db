import DesignTokens.Proofs.OrderedMap
import DesignTokens.Resolution
import Mathlib.Logic.Relation
/-!
# Chains of references

Where the references from a path lead, as a relation that knows nothing of walks, memos or passes,
and what a walk finds of it.  A walk that starts from true memories finds the terminal of exactly
the paths that have one; of the paths without one it sees the same whatever is remembered.
-/

set_option autoImplicit false

namespace DesignTokens.Resolution

/-! ## Where references lead -/

/-- The token at a path refers to another path. -/
def Follows (tree : TokenTree) (path target : TokenPath) : Prop :=
  ∃ token, OrderedMap.get? tree path = some token ∧ token.value = .reference target

/-- The references from a path end at a literal; the terminal is that literal and the type of the
token that has it, which is text if the token declares none. -/
inductive Leads (tree : TokenTree) : TokenPath → Terminal → Prop where
  | literal {path : TokenPath} {token : Token} {value : Scalar}
      (hget : OrderedMap.get? tree path = some token) (hvalue : token.value = .literal value) :
      Leads tree path (value, token.type.getD .string)
  | reference {path target : TokenPath} {token : Token} {terminal : Terminal}
      (hget : OrderedMap.get? tree path = some token) (hvalue : token.value = .reference target)
      (hrest : Leads tree target terminal) : Leads tree path terminal

variable {tree : TokenTree} {memo : Memo} {failed visited : List TokenPath}
  {path target current : TokenPath} {terminal : Terminal}

theorem Follows.unique {other : TokenPath} (h : Follows tree path target)
    (h' : Follows tree path other) : target = other := by
  obtain ⟨token, hget, hvalue⟩ := h
  obtain ⟨token', hget', hvalue'⟩ := h'
  rw [hget, Option.some.injEq] at hget'
  subst hget'
  rw [hvalue, TokenValue.reference.injEq] at hvalue'
  exact hvalue'

/-- A reference passes on where its target leads. -/
theorem Follows.leads_iff (h : Follows tree path target) :
    Leads tree path terminal ↔ Leads tree target terminal := by
  obtain ⟨token, hget, hvalue⟩ := h
  constructor
  · intro hleads
    cases hleads with
    | literal hget' hvalue' =>
      rw [hget, Option.some.injEq] at hget'
      rw [← hget', hvalue] at hvalue'
      cases hvalue'
    | reference hget' hvalue' hrest =>
      rw [hget, Option.some.injEq] at hget'
      rw [← hget', hvalue, TokenValue.reference.injEq] at hvalue'
      exact hvalue' ▸ hrest
  · intro hleads
    exact .reference hget hvalue hleads

/-- A path leads to one terminal at most. -/
theorem Leads.unique {other : Terminal} (h : Leads tree path terminal)
    (h' : Leads tree path other) : terminal = other := by
  induction h with
  | literal hget hvalue =>
    cases h' with
    | literal hget' hvalue' =>
      rw [hget, Option.some.injEq] at hget'
      subst hget'
      rw [hvalue, TokenValue.literal.injEq] at hvalue'
      rw [hvalue']
    | reference hget' hvalue' _ =>
      rw [hget, Option.some.injEq] at hget'
      rw [← hget', hvalue] at hvalue'
      cases hvalue'
  | reference hget hvalue _ ih =>
    exact ih ((Follows.leads_iff ⟨_, hget, hvalue⟩).mp h')

/-- A path that leads to a terminal has a token. -/
theorem Leads.mem_keys (h : Leads tree path terminal) : path ∈ OrderedMap.keys tree := by
  cases h with
  | literal hget _ => exact OrderedMap.mem_keys_of_get?_eq_some hget
  | reference hget _ _ => exact OrderedMap.mem_keys_of_get?_eq_some hget

/-- The references from a path that leads to a terminal do not come back to it. -/
theorem Leads.not_cyclic (h : Leads tree path terminal) :
    ¬ Relation.TransGen (Follows tree) path path := by
  induction h with
  | literal hget hvalue =>
    intro hcycle
    obtain ⟨target, ⟨token, hget', hvalue'⟩, _⟩ := Relation.TransGen.head'_iff.mp hcycle
    rw [hget, Option.some.injEq] at hget'
    rw [← hget', hvalue] at hvalue'
    cases hvalue'
  | reference hget hvalue _ ih =>
    intro hcycle
    obtain ⟨next, hnext, hback⟩ := Relation.TransGen.head'_iff.mp hcycle
    have hfollows : Follows tree _ _ := ⟨_, hget, hvalue⟩
    rw [hfollows.unique hnext] at ih
    exact ih (Relation.TransGen.tail' hback hnext)

/-- Paths joined by references lead to the same. -/
theorem leads_iff_of_transGen (h : Relation.TransGen (Follows tree) path target) :
    Leads tree path terminal ↔ Leads tree target terminal := by
  induction h with
  | single hstep => exact hstep.leads_iff
  | tail _ hstep ih => exact ih.trans hstep.leads_iff

/-! ## The paths that a walk has passed -/

/-- From every passed path the references come to where the walk is now. -/
def Passed (tree : TokenTree) (visited : List TokenPath) (current : TokenPath) : Prop :=
  ∀ path ∈ visited, Relation.TransGen (Follows tree) path current

theorem passed_nil (tree : TokenTree) (current : TokenPath) : Passed tree [] current := by
  intro path hmem
  cases hmem

/-- Going on from where the walk is keeps what it has passed. -/
theorem Passed.next (h : Passed tree visited current) (hnext : Follows tree current target) :
    Passed tree (visited ++ [current]) target := by
  intro path hmem
  cases List.mem_append.mp hmem with
  | inl hvisited => exact (h path hvisited).tail hnext
  | inr hcurrent =>
    rw [List.mem_singleton.mp hcurrent]
    exact .single hnext

/-- All passed paths lead to what the walk's place leads to. -/
theorem Passed.leads_iff (h : Passed tree visited current) (hmem : path ∈ visited ++ [current]) :
    Leads tree path terminal ↔ Leads tree current terminal := by
  cases List.mem_append.mp hmem with
  | inl hvisited => exact leads_iff_of_transGen (h path hvisited)
  | inr hcurrent => rw [List.mem_singleton.mp hcurrent]

/-- A walk that is back at a passed path leads nowhere. -/
theorem Passed.not_leads_of_mem (h : Passed tree visited current) (hmem : current ∈ visited) :
    ¬ Leads tree current terminal :=
  fun hleads => hleads.not_cyclic (h current hmem)

/-! ## What a walk finds -/

/-- What is remembered is where the paths lead. -/
def Memo.Sound (tree : TokenTree) (memo : Memo) : Prop :=
  ∀ path terminal, OrderedMap.get? memo path = some terminal → Leads tree path terminal

/-- The paths known to fail lead nowhere. -/
def Fails (tree : TokenTree) (failed : List TokenPath) : Prop :=
  ∀ path ∈ failed, ∀ terminal, ¬ Leads tree path terminal

theorem Fails.mono {failed' : List TokenPath} (h : Fails tree failed')
    (hsub : ∀ path ∈ failed, path ∈ failed') : Fails tree failed :=
  fun path hmem => h path (hsub path hmem)

theorem Passed.fails (h : Passed tree visited current)
    (hnot : ∀ terminal, ¬ Leads tree current terminal) : Fails tree (visited ++ [current]) := by
  intro path hmem terminal hleads
  exact hnot terminal ((h.leads_iff hmem).mp hleads)

/-- What the end of a walk says is true of the path where the walk started and of all that it
passed. -/
def WalkEnd.Sound (tree : TokenTree) (start : TokenPath) : WalkEnd → Prop
  | .terminal found passed => Leads tree start found ∧ ∀ path ∈ passed, Leads tree path found
  | .missing passed _ => (∀ terminal, ¬ Leads tree start terminal) ∧ Fails tree passed
  | .cycle passed _ => (∀ terminal, ¬ Leads tree start terminal) ∧ Fails tree passed
  | .failed passed => (∀ terminal, ¬ Leads tree start terminal) ∧ Fails tree passed

/-- A terminal ends a walk truly if the walk's place leads to it. -/
theorem Passed.sound_terminal (h : Passed tree visited current)
    (hleads : Leads tree current terminal) :
    (WalkEnd.terminal terminal (visited ++ [current])).Sound tree current :=
  ⟨hleads, fun _ hmem => (h.leads_iff hmem).mpr hleads⟩

/-- What is true of where a reference points to is true of where it stands. -/
theorem WalkEnd.Sound.of_follows {result : WalkEnd} (h : result.Sound tree target)
    (hnext : Follows tree current target) : result.Sound tree current := by
  cases result with
  | terminal found passed => exact ⟨hnext.leads_iff.mpr h.1, h.2⟩
  | missing passed path => exact ⟨fun t hleads => h.1 t (hnext.leads_iff.mp hleads), h.2⟩
  | cycle passed path => exact ⟨fun t hleads => h.1 t (hnext.leads_iff.mp hleads), h.2⟩
  | failed passed => exact ⟨fun t hleads => h.1 t (hnext.leads_iff.mp hleads), h.2⟩

/-- With true memories, walks say only true things. -/
theorem walk_sound (hmemo : Memo.Sound tree memo) (hfailed : Fails tree failed)
    (hpassed : Passed tree visited current) :
    (walk tree memo failed visited current).Sound tree current := by
  fun_induction walk tree memo failed visited current with
  | case1 visited current hmem =>
    have hnot : ∀ terminal, ¬ Leads tree current terminal :=
      fun _ => hpassed.not_leads_of_mem hmem
    exact ⟨hnot, (hpassed.fails hnot).mono fun path hpath => List.mem_append_left _ hpath⟩
  | case2 visited current _ hmem =>
    exact ⟨hfailed current hmem, hpassed.fails (hfailed current hmem)⟩
  | case3 visited current _ _ found hget =>
    exact hpassed.sound_terminal (hmemo current found hget)
  | case4 visited current _ _ _ hget =>
    have hnot : ∀ terminal, ¬ Leads tree current terminal := fun terminal hleads =>
      (OrderedMap.get?_eq_none_iff _ _).mp hget hleads.mem_keys
    exact ⟨hnot, (hpassed.fails hnot).mono fun path hpath => List.mem_append_left _ hpath⟩
  | case5 visited current _ _ _ token hget value hvalue =>
    exact hpassed.sound_terminal (.literal hget hvalue)
  | case6 visited current _ _ _ token hget target hvalue _ ih =>
    have hnext : Follows tree current target := ⟨token, hget, hvalue⟩
    exact (ih (hpassed.next hnext)).of_follows hnext

/-- A walk from a path that leads somewhere finds its terminal. -/
theorem exists_walk_eq_terminal (hmemo : Memo.Sound tree memo) (hfailed : Fails tree failed)
    (hleads : Leads tree path terminal) :
    ∃ passed, walk tree memo failed [] path = .terminal terminal passed ∧
      ∀ other ∈ passed, Leads tree other terminal := by
  have hsound := walk_sound hmemo hfailed (passed_nil tree path)
  cases hwalk : walk tree memo failed [] path with
  | terminal found passed =>
    rw [hwalk] at hsound
    have hfound : found = terminal := hsound.1.unique hleads
    subst hfound
    exact ⟨passed, rfl, hsound.2⟩
  | missing passed other =>
    rw [hwalk] at hsound
    exact absurd hleads (hsound.1 terminal)
  | cycle passed other =>
    rw [hwalk] at hsound
    exact absurd hleads (hsound.1 terminal)
  | failed passed =>
    rw [hwalk] at hsound
    exact absurd hleads (hsound.1 terminal)

theorem walk_of_missing (hnew : current ∉ visited) (hopen : current ∉ failed)
    (hmemo : OrderedMap.get? memo current = none) (hget : OrderedMap.get? tree current = none) :
    walk tree memo failed visited current = .missing visited current := by
  rw [walk, dif_neg hnew, if_neg hopen]
  split
  · simp_all
  · split
    · rfl
    · simp_all

theorem walk_of_reference {token : Token} (hnew : current ∉ visited) (hopen : current ∉ failed)
    (hmemo : OrderedMap.get? memo current = none)
    (hget : OrderedMap.get? tree current = some token)
    (hvalue : token.value = .reference target) :
    walk tree memo failed visited current =
      walk tree memo failed (visited ++ [current]) target := by
  rw [walk, dif_neg hnew, if_neg hopen]
  split
  · simp_all
  · split
    · simp_all
    · split <;> simp_all

/-- A walk that finds no terminal never meets a remembered path. -/
theorem walk_eq_walk_nil (failed visited : List TokenPath) (hmemo : Memo.Sound tree memo)
    (hnot : ∀ terminal, ¬ Leads tree current terminal) :
    walk tree memo failed visited current = walk tree [] failed visited current := by
  fun_induction walk tree memo failed visited current with
  | case1 visited current hmem =>
    rw [walk, dif_pos hmem]
  | case2 visited current hnew hmem =>
    rw [walk, dif_neg hnew, if_pos hmem]
  | case3 visited current _ _ found hget =>
    exact absurd (hmemo current found hget) (hnot found)
  | case4 visited current hnew hopen _ hget =>
    exact (walk_of_missing hnew hopen (OrderedMap.get?_nil current) hget).symm
  | case5 visited current _ _ _ token hget value hvalue =>
    exact absurd (.literal hget hvalue) (hnot _)
  | case6 visited current hnew hopen _ token hget target hvalue _ ih =>
    have hnext : Follows tree current target := ⟨token, hget, hvalue⟩
    rw [ih fun terminal hleads => hnot terminal (hnext.leads_iff.mpr hleads)]
    exact (walk_of_reference hnew hopen (OrderedMap.get?_nil current) hget hvalue).symm

/-- Where no path is known to fail, no walk ends at one. -/
theorem walk_ne_failed (passed : List TokenPath) :
    walk tree memo [] visited current ≠ .failed passed := by
  fun_induction walk tree memo [] visited current with
  | case1 visited current hmem => exact fun h => by cases h
  | case2 visited current _ hmem => exact absurd hmem List.not_mem_nil
  | case3 visited current _ _ found hget => exact fun h => by cases h
  | case4 visited current _ _ _ hget => exact fun h => by cases h
  | case5 visited current _ _ _ token hget value hvalue => exact fun h => by cases h
  | case6 visited current _ _ _ token hget target hvalue _ ih => exact ih

end DesignTokens.Resolution
