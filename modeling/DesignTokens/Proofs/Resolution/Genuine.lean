import DesignTokens.Proofs.Resolution.Causes
import Mathlib.Data.Finset.Dedup
/-!
# What errors show

An error of the resolution shows how it came about: the whole chain from the path that was being
resolved to the missing one, or the cycle that its references run into, from the path on where they
enter it.  Whatever is remembered or known to fail, a walk that ends in an error shows just that,
and it has passed the paths at which the cause stands for the first time.
-/

set_option autoImplicit false

namespace DesignTokens.Resolution

/-- The whole chain from a path to a path without a token: no path of it stands twice, each refers
to the next one, and the last two are the broken reference. -/
structure BreaksAlong (tree : TokenTree) (start : TokenPath) (broken : BrokenChain) : Prop where
  begins : broken.chain.head? = some start
  ends : ∃ earlier, broken.chain = earlier ++ [broken.referencing, broken.missing]
  distinct : broken.chain.Nodup
  follows : List.IsChain (Follows tree) broken.chain
  absent : broken.missing ∉ OrderedMap.keys tree

/-- A way that enters a cycle: the references lead from the start over the approach to the entry,
from there over the rest, and back to the entry. -/
structure Enters (tree : TokenTree) (start : TokenPath) (approach : List TokenPath)
    (entry : TokenPath) (rest : List TokenPath) : Prop where
  begins : (approach ++ [entry]).head? = some start
  distinct : (approach ++ entry :: rest).Nodup
  known : ∀ path ∈ entry :: rest, path ∈ OrderedMap.keys tree
  follows : List.IsChain (Follows tree) (approach ++ entry :: (rest ++ [entry]))

/-- The cycle that the references from a path run into, from the path on that they come to first. -/
def LoopsAlong (tree : TokenTree) (start : TokenPath) (cycle : List TokenPath) : Prop :=
  ∃ approach entry rest, cycle = entry :: (rest ++ [entry]) ∧
    Enters tree start approach entry rest

/-- An error shows truly why a path has no terminal. -/
def IsGenuine (tree : TokenTree) (mode : String) (start : TokenPath) : BuildError → Prop
  | .unresolved broken => broken.mode = mode ∧ BreaksAlong tree start broken
  | .cyclic loop => loop.mode = mode ∧ LoopsAlong tree start loop.cycle
  | _ => False

/-- The cause that an error reports. -/
def causeOf? : BuildError → Option Cause
  | .unresolved broken => some (.missing broken.mode broken.referencing broken.missing)
  | .cyclic loop => some (.cycle loop.mode loop.cycle.toFinset)
  | _ => none

variable {tree : TokenTree} {mode : String} {failed passed approach rest : List TokenPath}
  {start path entry : TokenPath} {e : BuildError}

/-! ## Genuine errors report causes -/

theorem BreaksAlong.follows_missing {broken : BrokenChain} (h : BreaksAlong tree start broken) :
    Follows tree broken.referencing broken.missing := by
  obtain ⟨earlier, hends⟩ := h.ends
  have hfollows := h.follows
  rw [hends] at hfollows
  exact List.isChain_pair.mp hfollows.right_of_append

/-- The references of a cycle come back to its entry. -/
theorem Enters.transGen_entry (h : Enters tree start approach entry rest) :
    Relation.TransGen (Follows tree) entry entry := by
  have hcycle : List.IsChain (Follows tree) ((entry :: rest) ++ [entry]) :=
    h.follows.right_of_append
  exact transGen_of_isChain hcycle List.mem_cons_self

/-- The paths of a cycle are all that its entry leads to. -/
theorem Enters.mem_iff (h : Enters tree start approach entry rest) :
    path ∈ entry :: rest ↔ Relation.TransGen (Follows tree) entry path := by
  have hcycle : List.IsChain (Follows tree) ((entry :: rest) ++ [entry]) :=
    h.follows.right_of_append
  constructor
  · intro hpath
    have hfrom := reflTransGen_of_isChain hcycle (List.mem_append_left _ hpath)
    exact Relation.TransGen.trans_left h.transGen_entry hfrom
  · intro hpath
    -- The next path after one of the cycle is the next one in the list, or the entry.
    have hclosed : ∀ member ∈ entry :: rest, ∀ next, Follows tree member next →
        next ∈ entry :: rest := by
      intro member hmember next hnext
      obtain ⟨before, after, hsplit⟩ := List.append_of_mem hmember
      rw [hsplit, List.append_assoc] at hcycle
      have hafter := hcycle.right_of_append
      cases after with
      | nil =>
        rw [hnext.unique (List.isChain_pair.mp hafter)]
        exact List.mem_cons_self
      | cons following later =>
        rw [hnext.unique hafter.rel]
        rw [hsplit]
        simp
    induction hpath with
    | single hnext => exact hclosed entry List.mem_cons_self _ hnext
    | tail _ hnext ih => exact hclosed _ ih _ hnext

/-- A genuine error reports a cause of the tree, into which its start leads. -/
theorem IsGenuine.exists_cause (h : IsGenuine tree mode start e) :
    ∃ cause, causeOf? e = some cause ∧ IsCause tree mode cause ∧ LeadsInto tree start cause := by
  cases e with
  | unresolved broken =>
    obtain ⟨rfl, hbreaks⟩ := h
    refine ⟨_, rfl, .missing hbreaks.follows_missing hbreaks.absent, broken.referencing,
      Cause.mem_paths_missing.mpr rfl, ?_⟩
    obtain ⟨later, hbegins⟩ := List.head?_eq_some_iff.mp hbreaks.begins
    obtain ⟨earlier, hends⟩ := hbreaks.ends
    refine reflTransGen_of_isChain (hbegins ▸ hbreaks.follows) ?_
    rw [← hbegins, hends]
    simp
  | cyclic loop =>
    obtain ⟨rfl, approach, entry, rest, hcycle, henters⟩ := h
    have hmembers (member : TokenPath) : member ∈ loop.cycle.toFinset ↔
        Relation.TransGen (Follows tree) entry member := by
      rw [hcycle, ← henters.mem_iff]
      simp only [List.mem_toFinset, List.mem_cons, List.mem_append, List.not_mem_nil, or_false]
      tauto
    refine ⟨_, rfl, .cycle henters.transGen_entry hmembers, entry,
      (hmembers entry).mpr henters.transGen_entry, ?_⟩
    have hfollows : List.IsChain (Follows tree) ((approach ++ [entry]) ++ (rest ++ [entry])) := by
      simpa using henters.follows
    obtain ⟨later, hbegins⟩ := List.head?_eq_some_iff.mp henters.begins
    refine reflTransGen_of_isChain (hbegins ▸ hfollows.left_of_append) ?_
    rw [← hbegins]
    simp
  | config | document | collision | coverage | output => exact h.elim

/-! ## What a walk shows -/

/-- The way of a walk begins where it started. -/
theorem head?_of_begins {way : List TokenPath} (h : [start] <+: way) : way.head? = some start := by
  obtain ⟨later, hway⟩ := h
  rw [← hway]
  rfl

theorem mem_of_begins (h : [start] <+: passed ++ [path]) (hne : passed ≠ []) : start ∈ passed := by
  obtain ⟨later, hway⟩ := h
  cases passed with
  | nil => exact absurd rfl hne
  | cons first rest =>
    rw [List.singleton_append, List.cons_append, List.cons.injEq] at hway
    exact hway.1 ▸ List.mem_cons_self

/-- A way to a path without a token is a whole broken chain. -/
theorem Trail.breaksAlong (h : Trail tree failed passed path) (hnew : path ∉ passed)
    (habsent : path ∉ OrderedMap.keys tree) (hway : [start] <+: passed ++ [path])
    (hne : passed ≠ []) :
    BreaksAlong tree start ⟨mode, passed.getLastD path, path, passed ++ [path]⟩ := by
  refine ⟨head?_of_begins hway, ?_, h.distinct.append (by simp) (List.disjoint_singleton.mpr hnew),
    h.follows, habsent⟩
  obtain ⟨earlier, last, rfl⟩ := (List.eq_nil_or_concat' passed).resolve_left hne
  exact ⟨earlier, by simp⟩

/-- A way back to a path that it has passed runs into a cycle. -/
theorem Trail.exists_enters (h : Trail tree failed passed path) (hmem : path ∈ passed)
    (hway : [start] <+: passed ++ [path]) :
    ∃ approach rest, passed = approach ++ path :: rest ∧
      passed.dropWhile (· ≠ path) = path :: rest ∧ Enters tree start approach path rest := by
  obtain ⟨approach, rest, rfl, hfirst⟩ := List.eq_append_cons_of_mem hmem
  refine ⟨approach, rest, rfl, ?_, ?_, h.distinct, ?_, ?_⟩
  · have hskip : ∀ other ∈ approach, decide (other ≠ path) = true := by
      intro other hother
      simpa using ne_of_mem_of_not_mem hother hfirst
    rw [List.dropWhile_append_of_pos hskip, List.dropWhile_cons_of_neg (by simp)]
  · have hhead := head?_of_begins hway
    cases approach with
    | nil => simpa using hhead
    | cons first later => simpa using hhead
  · intro other hother
    have hleads := transGen_of_isChain h.follows (List.mem_append_right _ hother)
    obtain ⟨next, hnext, _⟩ := Relation.TransGen.head'_iff.mp hleads
    exact hnext.mem_keys
  · simpa using h.follows

/-- A path fails in a way that was not known: the walk from it has passed no path that is known to
fail, and all paths at which the cause stands. -/
structure FailsAnew (tree : TokenTree) (mode : String) (failed : List TokenPath)
    (start : TokenPath) (passed : List TokenPath) (e : BuildError) : Prop where
  starts : start ∈ passed
  unfailed : ∀ path ∈ passed, path ∉ failed
  genuine : IsGenuine tree mode start e
  meets : ∀ cause, causeOf? e = some cause → ∀ place ∈ cause.paths, place ∈ passed
  leads : ∀ cause, causeOf? e = some cause → ∀ path ∈ passed, LeadsInto tree path cause

/-- A path fails because the walk from it comes to a path that is known to fail. -/
structure FailsAgain (tree : TokenTree) (failed : List TokenPath) (start : TokenPath)
    (passed : List TokenPath) : Prop where
  starts : start ∈ passed
  known : ∃ known ∈ failed, ∀ path ∈ passed, Relation.ReflTransGen (Follows tree) path known

theorem Trail.failsAnew_missing (h : Trail tree failed passed path) (hnew : path ∉ passed)
    (habsent : path ∉ OrderedMap.keys tree) (hway : [start] <+: passed ++ [path])
    (hstart : start ∈ OrderedMap.keys tree) :
    FailsAnew tree mode failed start passed
      (.unresolved ⟨mode, passed.getLastD path, path, passed ++ [path]⟩) := by
  have hne : passed ≠ [] := by
    rintro rfl
    obtain ⟨later, hlater⟩ := hway
    rw [List.nil_append, List.singleton_append, List.cons.injEq] at hlater
    exact habsent (hlater.1 ▸ hstart)
  obtain ⟨earlier, last, rfl⟩ := (List.eq_nil_or_concat' passed).resolve_left hne
  have hlast : (earlier ++ [last]).getLastD path = last := by simp
  refine ⟨mem_of_begins hway hne, h.unfailed, ⟨rfl, h.breaksAlong hnew habsent hway hne⟩, ?_, ?_⟩
  · rintro cause hcause place hplace
    cases hcause
    rw [Cause.mem_paths_missing.mp hplace, hlast]
    simp
  · rintro cause hcause other hother
    cases hcause
    refine ⟨last, by rw [hlast]; exact Cause.mem_paths_missing.mpr rfl, ?_⟩
    rcases List.mem_append.mp hother with hearlier | hother
    · exact (transGen_of_isChain h.follows.left_of_append hearlier).to_reflTransGen
    · rw [List.mem_singleton.mp hother]

theorem Trail.failsAnew_cycle (h : Trail tree failed passed path) (hmem : path ∈ passed)
    (hway : [start] <+: passed ++ [path]) :
    FailsAnew tree mode failed start passed
      (.cyclic ⟨mode, passed.dropWhile (· ≠ path) ++ [path]⟩) := by
  obtain ⟨approach, rest, hpassed, hcycle, henters⟩ := h.exists_enters hmem hway
  rw [hcycle]
  refine ⟨mem_of_begins hway (List.ne_nil_of_mem hmem), h.unfailed,
    ⟨rfl, approach, path, rest, rfl, henters⟩, ?_, ?_⟩
  · rintro cause hcause place hplace
    cases hcause
    rw [hpassed]
    have hplace' : place ∈ path :: rest := by simpa [or_comm] using hplace
    exact List.mem_append_right _ hplace'
  · rintro cause hcause other hother
    cases hcause
    exact ⟨path, by simp, (transGen_of_isChain h.follows hother).to_reflTransGen⟩

/-- A path of the tree has a terminal, fails anew, or fails again; what a pass knows to fail grows
by the paths that the walk has passed. -/
theorem Pass.resolvePath_cases (pass : Pass) (tree : TokenTree) (mode : String)
    (hstart : start ∈ OrderedMap.keys tree) :
    (∃ found, (pass.resolvePath tree mode start).1 = .ok found) ∨
      (∃ e passed, pass.resolvePath tree mode start =
          (.error (.error e), { pass with misses := pass.misses + 1 }.fail passed) ∧
        FailsAnew tree mode pass.failed start passed e) ∨
      (∃ passed, pass.resolvePath tree mode start =
          (.error .reported, { pass with misses := pass.misses + 1 }.fail passed) ∧
        FailsAgain tree pass.failed start passed) := by
  unfold Pass.resolvePath
  cases hget : OrderedMap.get? pass.memo start with
  | some found => exact .inl ⟨found, rfl⟩
  | none =>
    have hcomes : (walk tree pass.memo pass.failed [] start).Comes tree pass.failed [start] :=
      walk_comes (trail_nil tree pass.failed start)
    simp only
    cases hwalk : walk tree pass.memo pass.failed [] start with
    | terminal found passed => exact .inl ⟨found, rfl⟩
    | missing passed path =>
      rw [hwalk] at hcomes
      obtain ⟨hway, htrail, hnew, habsent⟩ := hcomes
      exact .inr (.inl ⟨_, passed, rfl, htrail.failsAnew_missing hnew habsent hway hstart⟩)
    | cycle passed path =>
      rw [hwalk] at hcomes
      obtain ⟨hway, htrail, hmem⟩ := hcomes
      exact .inr (.inl ⟨_, passed, rfl, htrail.failsAnew_cycle hmem hway⟩)
    | failed passed =>
      rw [hwalk] at hcomes
      obtain ⟨hway, earlier, known, hknown, rfl, htrail⟩ := hcomes
      refine .inr (.inr ⟨_, rfl, hway.subset List.mem_cons_self, known, hknown, ?_⟩)
      intro path hpath
      rcases List.mem_append.mp hpath with hearlier | hlast
      · exact (transGen_of_isChain htrail.follows hearlier).to_reflTransGen
      · rw [List.mem_singleton.mp hlast]

/-- A path of the tree that leads to no terminal leads into a cause. -/
theorem exists_isCause (mode : String) (hpath : path ∈ OrderedMap.keys tree)
    (hnot : ∀ terminal, ¬ Leads tree path terminal) :
    ∃ cause, IsCause tree mode cause ∧ LeadsInto tree path cause := by
  have hsound : Pass.Sound tree ⟨[], [], 0, 0⟩ := Pass.sound_of_memo (Memo.sound_nil tree) 0 0
  rcases Pass.resolvePath_cases ⟨[], [], 0, 0⟩ tree mode hpath with
    ⟨found, hfound⟩ | ⟨e, passed, _, hanew⟩ | ⟨passed, _, hagain⟩
  · exact absurd (hsound.leads_of_resolvePath hfound) (hnot found)
  · obtain ⟨cause, _, hcause, hleads⟩ := hanew.genuine.exists_cause
    exact ⟨cause, hcause, hleads⟩
  · obtain ⟨known, hknown, _⟩ := hagain.known
    exact absurd hknown List.not_mem_nil

end DesignTokens.Resolution
