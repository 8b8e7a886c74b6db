import DesignTokens.Proofs.Resolution.Genuine
import DesignTokens.Proofs.Resolution.LookUp
/-!
# Each root cause is reported once

A gathering pass reports a path if it is the first one of the tree to lead into its cause.  What
the pass knows to fail carries this from path to path: it leads into causes that were met before,
and it has all the paths at which these stand, so that no walk comes to one of them a second time.
-/

set_option autoImplicit false

namespace DesignTokens

namespace Resolution

variable {tree : TokenTree} {mode : String} {pass : Pass}
  {before paths failed failed' passed : List TokenPath} {start path : TokenPath}
  {cause other : Cause} {errors : List BuildError} {e : BuildError}

/-- A cause that some path of a list leads into. -/
def Met (tree : TokenTree) (before : List TokenPath) (cause : Cause) : Prop :=
  ∃ path ∈ before, LeadsInto tree path cause

theorem met_concat : Met tree (before ++ [path]) cause ↔
    Met tree before cause ∨ LeadsInto tree path cause := by
  unfold Met
  simp only [List.mem_append, List.mem_singleton]
  constructor
  · rintro ⟨earlier, hearlier | rfl, hleads⟩
    · exact .inl ⟨earlier, hearlier, hleads⟩
    · exact .inr hleads
  · rintro (⟨earlier, hearlier, hleads⟩ | hleads)
    · exact ⟨earlier, .inl hearlier, hleads⟩
    · exact ⟨path, .inr rfl, hleads⟩

/-! ## One path after the other -/

/-- The errors for paths that follow on others: a path has one exactly if it is the first to lead
into its cause. -/
inductive Reports (tree : TokenTree) (mode : String) :
    List TokenPath → List TokenPath → List BuildError → Prop where
  | nil {before : List TokenPath} : Reports tree mode before [] []
  | resolved {before paths : List TokenPath} {path : TokenPath} {terminal : Terminal}
      {errors : List BuildError} (hleads : Leads tree path terminal)
      (hrest : Reports tree mode (before ++ [path]) paths errors) :
      Reports tree mode before (path :: paths) errors
  | again {before paths : List TokenPath} {path : TokenPath} {cause : Cause}
      {errors : List BuildError} (hcause : IsCause tree mode cause)
      (hleads : LeadsInto tree path cause) (hmet : Met tree before cause)
      (hrest : Reports tree mode (before ++ [path]) paths errors) :
      Reports tree mode before (path :: paths) errors
  | anew {before paths : List TokenPath} {path : TokenPath} {cause : Cause} {e : BuildError}
      {errors : List BuildError} (hgenuine : IsGenuine tree mode path e)
      (hcause : causeOf? e = some cause) (hnew : ¬ Met tree before cause)
      (hrest : Reports tree mode (before ++ [path]) paths errors) :
      Reports tree mode before (path :: paths) (e :: errors)

/-- What a pass knows to fail after the paths before: it leads into causes that they have met, and
it has all the paths at which these causes stand. -/
structure Settles (tree : TokenTree) (mode : String) (before failed : List TokenPath) : Prop where
  met : ∀ path ∈ failed, ∃ cause, IsCause tree mode cause ∧ LeadsInto tree path cause ∧
    Met tree before cause
  closed : ∀ cause, IsCause tree mode cause → Met tree before cause →
    ∀ place ∈ cause.paths, place ∈ failed

theorem settles_nil (tree : TokenTree) (mode : String) : Settles tree mode [] [] :=
  ⟨fun _ hmem => absurd hmem List.not_mem_nil,
    fun _ _ ⟨_, hmem, _⟩ => absurd hmem List.not_mem_nil⟩

/-- A path that leads to a terminal meets no cause. -/
theorem Settles.resolved {terminal : Terminal} (h : Settles tree mode before failed)
    (hleads : Leads tree path terminal) : Settles tree mode (before ++ [path]) failed := by
  refine ⟨fun known hknown => ?_, fun cause hcause hmet => ?_⟩
  · obtain ⟨cause, hcause, hinto, hmet⟩ := h.met known hknown
    exact ⟨cause, hcause, hinto, met_concat.mpr (.inl hmet)⟩
  · rcases met_concat.mp hmet with hearlier | hpath
    · exact h.closed cause hcause hearlier
    · exact absurd hleads (hcause.not_leads hpath)

/-- A path that leads into a cause, together with paths that do so and are all known afterwards, as
are those where the cause stands. -/
theorem Settles.step (h : Settles tree mode before failed) (hcause : IsCause tree mode cause)
    (hleads : LeadsInto tree path cause) (hpassed : ∀ other ∈ passed, LeadsInto tree other cause)
    (hfailed : ∀ other, other ∈ failed' ↔ other ∈ failed ∨ other ∈ passed)
    (hplaces : ∀ place ∈ cause.paths, place ∈ failed') :
    Settles tree mode (before ++ [path]) failed' := by
  refine ⟨fun known hknown => ?_, fun other hother hmet place hplace => ?_⟩
  · rcases (hfailed known).mp hknown with hold | hnew
    · obtain ⟨other, hother, hinto, hmet⟩ := h.met known hold
      exact ⟨other, hother, hinto, met_concat.mpr (.inl hmet)⟩
    · exact ⟨cause, hcause, hpassed known hnew, met_concat.mpr (.inr hleads)⟩
  · rcases met_concat.mp hmet with hearlier | hpath
    · exact (hfailed place).mpr (.inl (h.closed other hother hearlier place hplace))
    · rw [hother.unique hcause hpath hleads] at hplace
      exact hplaces place hplace

/-- A path that fails anew leads into a cause that was not met. -/
theorem Settles.not_met_of_failsAnew (h : Settles tree mode before failed)
    (hcause : IsCause tree mode cause)
    (hplaces : ∀ place ∈ cause.paths, place ∈ passed)
    (hunfailed : ∀ other ∈ passed, other ∉ failed) : ¬ Met tree before cause := by
  intro hmet
  obtain ⟨place, hplace⟩ := hcause.exists_mem_paths
  exact hunfailed place (hplaces place hplace) (h.closed cause hcause hmet place hplace)

/-- A path that fails again leads into a cause that was met. -/
theorem Settles.exists_met_of_failsAgain (h : Settles tree mode before failed)
    (hfails : FailsAgain tree failed path passed) :
    ∃ cause, IsCause tree mode cause ∧ Met tree before cause ∧
      ∀ other ∈ passed, LeadsInto tree other cause := by
  obtain ⟨known, hknown, hpassed⟩ := hfails.known
  obtain ⟨cause, hcause, hinto, hmet⟩ := h.met known hknown
  exact ⟨cause, hcause, hmet, fun other hother => hinto.of_reflTransGen (hpassed other hother)⟩

theorem Pass.mem_failed_fail (pass : Pass) (passed : List TokenPath) (path : TokenPath) :
    path ∈ (pass.fail passed).failed ↔ path ∈ pass.failed ∨ path ∈ passed := by
  unfold Pass.fail
  simp only [List.mem_append, List.mem_filter, decide_eq_true_eq]
  tauto

/-! ## All paths -/

/-- A gathering pass reports the paths that are the first to lead into their causes. -/
theorem Pass.Sound.reports (h : pass.Sound tree) (hsettles : Settles tree mode before pass.failed)
    (entries : List (TokenPath × Token))
    (hentries : ∀ entry ∈ entries, entry.1 ∈ OrderedMap.keys tree) :
    Reports tree mode before (OrderedMap.keys entries)
      (resolveEntries true tree mode pass entries).errors := by
  induction entries generalizing pass before with
  | nil => exact .nil
  | cons entry rest ih =>
    obtain ⟨path, token⟩ := entry
    have hpath : path ∈ OrderedMap.keys tree := hentries _ List.mem_cons_self
    have hrest : ∀ entry ∈ rest, entry.1 ∈ OrderedMap.keys tree :=
      fun entry hmem => hentries entry (List.mem_cons_of_mem _ hmem)
    have hafter := h.after_resolvePath mode path
    rw [resolveEntries]
    rcases pass.resolvePath_cases tree mode hpath with
      ⟨found, hfound⟩ | ⟨e, passed, heq, hanew⟩ | ⟨passed, heq, hagain⟩
    · have hleads := h.leads_of_resolvePath hfound
      have hkept := Pass.failed_resolvePath_of_ok hfound
      generalize pass.resolvePath tree mode path = attempt at hafter hfound hkept ⊢
      obtain ⟨result, after⟩ := attempt
      simp only at hfound hkept
      subst hfound
      exact .resolved hleads (ih hafter (hkept ▸ hsettles.resolved hleads) hrest)
    · obtain ⟨cause, hcauseOf, hcause, hinto⟩ := hanew.genuine.exists_cause
      have hplaces := hanew.meets cause hcauseOf
      have hstep := hsettles.step hcause hinto (hanew.leads cause hcauseOf)
        (Pass.mem_failed_fail { pass with misses := pass.misses + 1 } passed)
        fun place hplace => (Pass.mem_failed_fail _ passed place).mpr (.inr (hplaces place hplace))
      rw [heq] at hafter ⊢
      exact .anew hanew.genuine hcauseOf
        (hsettles.not_met_of_failsAnew hcause hplaces hanew.unfailed) (ih hafter hstep hrest)
    · obtain ⟨cause, hcause, hmet, hpassed⟩ := hsettles.exists_met_of_failsAgain hagain
      have hinto := hpassed path hagain.starts
      have hstep := hsettles.step hcause hinto hpassed
        (Pass.mem_failed_fail { pass with misses := pass.misses + 1 } passed)
        fun place hplace => (Pass.mem_failed_fail _ passed place).mpr
          (.inl (hsettles.closed cause hcause hmet place hplace))
      rw [heq] at hafter ⊢
      exact .again hcause hinto hmet (ih hafter hstep hrest)

/-! ## Which causes are reported -/

theorem met_cons : Met tree (path :: paths) cause ↔
    LeadsInto tree path cause ∨ Met tree paths cause := by
  unfold Met
  simp only [List.mem_cons, or_and_right, exists_or, exists_eq_left]

/-- Of some paths, the first that leads into a cause comes before all that lead into another one. -/
def Precedes (tree : TokenTree) (paths : List TokenPath) (cause other : Cause) : Prop :=
  ∃ earlier start later, paths = earlier ++ start :: later ∧ LeadsInto tree start cause ∧
    ¬ Met tree (earlier ++ [start]) other

/-- The causes that paths meet and those before them have not met, in the order in which they do. -/
structure MetInOrder (tree : TokenTree) (mode : String) (before paths : List TokenPath)
    (causes : List Cause) : Prop where
  mem_iff : ∀ cause, cause ∈ causes ↔
    IsCause tree mode cause ∧ Met tree paths cause ∧ ¬ Met tree before cause
  ordered : causes.Pairwise (Precedes tree (before ++ paths))

variable {causes : List Cause}

/-- No cause comes before itself. -/
theorem MetInOrder.nodup (h : MetInOrder tree mode before paths causes) : causes.Nodup := by
  refine h.ordered.imp ?_
  rintro cause _ ⟨earlier, start, later, _, hleads, hnot⟩ rfl
  exact hnot (met_concat.mpr (.inr hleads))

/-- A path that leads into no cause but those that were met adds none. -/
theorem MetInOrder.skip (h : MetInOrder tree mode (before ++ [path]) paths causes)
    (hmet : ∀ cause, IsCause tree mode cause → LeadsInto tree path cause → Met tree before cause) :
    MetInOrder tree mode before (path :: paths) causes := by
  refine ⟨fun cause => ?_, ?_⟩
  · rw [h.mem_iff, met_concat, met_cons]
    have hpath := hmet cause
    tauto
  · simpa using h.ordered

/-- A path that leads into a cause which was not met adds this one. -/
theorem MetInOrder.cons (h : MetInOrder tree mode (before ++ [path]) paths causes)
    (hcause : IsCause tree mode cause) (hleads : LeadsInto tree path cause)
    (hnew : ¬ Met tree before cause) :
    MetInOrder tree mode before (path :: paths) (cause :: causes) := by
  refine ⟨fun other => ?_, List.pairwise_cons.mpr ⟨fun other hmem => ?_, by simpa using h.ordered⟩⟩
  · rw [List.mem_cons, h.mem_iff, met_concat, met_cons]
    constructor
    · rintro (rfl | ⟨hother, hmet, hnot⟩)
      · exact ⟨hcause, .inl hleads, hnew⟩
      · exact ⟨hother, .inr hmet, fun hbefore => hnot (.inl hbefore)⟩
    · rintro ⟨hother, hpath | hmet, hnot⟩
      · exact .inl (hother.unique hcause hpath hleads)
      · by_cases hpath : LeadsInto tree path other
        · exact .inl (hother.unique hcause hpath hleads)
        · exact .inr ⟨hother, hmet, fun hold => hold.elim hnot hpath⟩
  · exact ⟨before, path, paths, rfl, hleads, ((h.mem_iff other).mp hmem).2.2⟩

/-- The errors report the causes that the paths meet for the first time. -/
theorem Reports.exists_metInOrder (h : Reports tree mode before paths errors) :
    ∃ causes : List Cause, errors.map causeOf? = causes.map some ∧
      MetInOrder tree mode before paths causes := by
  induction h with
  | nil =>
    refine ⟨[], rfl, fun cause => ⟨fun hmem => absurd hmem List.not_mem_nil, ?_⟩, .nil⟩
    rintro ⟨_, ⟨path, hmem, _⟩, _⟩
    exact absurd hmem List.not_mem_nil
  | resolved hleads _ ih =>
    obtain ⟨causes, hmap, horder⟩ := ih
    exact ⟨causes, hmap, horder.skip fun cause hcause hinto =>
      absurd hleads (hcause.not_leads hinto)⟩
  | again hcause hleads hmet _ ih =>
    obtain ⟨causes, hmap, horder⟩ := ih
    exact ⟨causes, hmap, horder.skip fun other hother hinto =>
      hother.unique hcause hinto hleads ▸ hmet⟩
  | @anew before paths path cause e errors hgenuine hcauseOf hnew _ ih =>
    obtain ⟨causes, hmap, horder⟩ := ih
    obtain ⟨cause', hcauseOf', hcause, hleads⟩ := hgenuine.exists_cause
    rw [hcauseOf, Option.some.injEq] at hcauseOf'
    subst hcauseOf'
    exact ⟨cause :: causes, by rw [List.map_cons, List.map_cons, hmap, hcauseOf],
      horder.cons hcause hleads hnew⟩

/-- Every error is genuine for the first path that leads into its cause. -/
theorem Reports.isGenuine (h : Reports tree mode before paths errors) (hmem : e ∈ errors) :
    ∃ earlier start later cause, before ++ paths = earlier ++ start :: later ∧
      causeOf? e = some cause ∧ ¬ Met tree earlier cause ∧ IsGenuine tree mode start e := by
  induction h with
  | nil => exact absurd hmem List.not_mem_nil
  | resolved _ _ ih | again _ _ _ _ ih => simpa using ih hmem
  | @anew before paths path cause e' errors hgenuine hcause hnew _ ih =>
    rcases List.mem_cons.mp hmem with rfl | hrest
    · exact ⟨before, path, paths, cause, rfl, hcause, hnew, hgenuine⟩
    · simpa using ih hrest

/-- The first error is genuine for the first path that leads to no terminal. -/
theorem Reports.isGenuine_head (h : Reports tree mode before paths (e :: errors))
    (hbefore : ∀ path ∈ before, ∃ terminal, Leads tree path terminal) :
    ∃ earlier start later, before ++ paths = earlier ++ start :: later ∧
      (∀ path ∈ earlier, ∃ terminal, Leads tree path terminal) ∧ IsGenuine tree mode start e := by
  generalize herrors : e :: errors = reported at h
  induction h with
  | nil => cases herrors
  | @resolved before paths path terminal _ hleads _ ih =>
    have hall : ∀ other ∈ before ++ [path], ∃ terminal, Leads tree other terminal := by
      intro other hother
      rcases List.mem_append.mp hother with hearlier | hpath
      · exact hbefore other hearlier
      · exact List.mem_singleton.mp hpath ▸ ⟨terminal, hleads⟩
    simpa using ih hall herrors
  | again hcause _ hmet _ _ =>
    obtain ⟨other, hother, hinto⟩ := hmet
    obtain ⟨terminal, hleads⟩ := hbefore other hother
    exact absurd hleads (hcause.not_leads hinto)
  | @anew before paths path _ _ _ hgenuine _ _ _ _ =>
    cases herrors
    exact ⟨before, path, paths, rfl, hbefore, hgenuine⟩

/-! ## Holding back repeated causes -/

/-- The errors of a list whose cause is not among those that were seen, nor that of an earlier
error. -/
def reportedOnce (seen : List Cause) : List BuildError → List BuildError
  | [] => []
  | e :: rest =>
    match causeOf? e with
    | none => e :: reportedOnce seen rest
    | some cause =>
      if cause ∈ seen then reportedOnce seen rest else e :: reportedOnce (cause :: seen) rest

/-- Of errors with different causes none is held back. -/
theorem reportedOnce_eq_self {seen : List Cause} (hmap : errors.map causeOf? = causes.map some)
    (hdistinct : (seen.reverse ++ causes).Nodup) : reportedOnce seen errors = errors := by
  induction errors generalizing seen causes with
  | nil => rfl
  | cons e rest ih =>
    cases causes with
    | nil => cases hmap
    | cons cause later =>
      rw [List.map_cons, List.map_cons, List.cons.injEq] at hmap
      have hnew : cause ∉ seen := by
        intro hmem
        exact (List.nodup_append.mp hdistinct).2.2 cause (List.mem_reverse.mpr hmem) cause
          List.mem_cons_self rfl
      rw [reportedOnce, hmap.1]
      simp only [hnew, if_false]
      rw [ih hmap.2 (by simpa using hdistinct)]

end Resolution

namespace ResolutionCache

open Resolution

variable {cache : ResolutionCache} {tree : TokenTree} {mode : String}

/-- Resolving a tree, gathering errors, reports the first path that leads into each cause. -/
theorem reports_resolve (hrenderable : tree.isRenderable = true)
    (hmemo : Memo.Sound tree (cache.memoFor mode tree)) :
    Reports tree mode [] (OrderedMap.keys tree) (cache.resolve true tree mode).1.errors := by
  rw [resolve_of_isRenderable hrenderable]
  have hsound : (cache.startPass mode tree).Sound tree := Pass.sound_of_memo hmemo 0 0
  exact hsound.reports (settles_nil tree mode) tree fun entry hmem =>
    List.mem_map_of_mem (f := (·.1)) hmem

/-- The first error that is gathered from one cache stops a strict pass from every other one. -/
theorem stopped_eq_head?_of_sound {other : ResolutionCache}
    (hrenderable : tree.isRenderable = true)
    (hmemo : Memo.Sound tree (cache.memoFor mode tree))
    (hother : Memo.Sound tree (other.memoFor mode tree)) :
    (other.resolve false tree mode).1.stopped =
      (cache.resolve true tree mode).1.errors.head?.map Failure.error := by
  rw [resolve_of_isRenderable hrenderable, resolve_of_isRenderable hrenderable]
  have halike : Pass.Alike tree (other.startPass mode tree) (cache.startPass mode tree) :=
    ⟨Pass.sound_of_memo hother 0 0, Pass.sound_of_memo hmemo 0 0, rfl⟩
  exact (halike.of_resolveEntries false mode tree).2.2.trans
    (stopped_eq_head?_errors tree mode (cache.startPass mode tree) tree).1

/-- Resolving a tree in which no integer has too many digits reports each root cause exactly once,
and nothing else: every cycle, and every reference to a path without a token.  The causes come in
the order in which a path that leads into them first stands in the tree, so that holding back
repeated ones would change nothing.  Every path leads to a literal or into a reported cause, and a
strict pass is stopped by the first of them.  With such an integer, no cause is reported. -/
theorem resolve_reports_causes (cache other : ResolutionCache) (tree : TokenTree) (mode : String)
    (hmemo : Memo.Sound tree (cache.memoFor mode tree))
    (hother : Memo.Sound tree (other.memoFor mode tree)) :
    (tree.WithinDigits →
      (∃ causes : List Cause,
        (cache.resolve true tree mode).1.errors.map causeOf? = causes.map some ∧
          causes.Nodup ∧
          (∀ cause, cause ∈ causes ↔ IsCause tree mode cause) ∧
          causes.Pairwise (Precedes tree (OrderedMap.keys tree)) ∧
          ∀ path ∈ OrderedMap.keys tree, (∃ terminal, Leads tree path terminal) ∨
            ∃ cause ∈ causes, LeadsInto tree path cause) ∧
        reportedOnce [] (cache.resolve true tree mode).1.errors =
          (cache.resolve true tree mode).1.errors ∧
        (other.resolve false tree mode).1.stopped =
          (cache.resolve true tree mode).1.errors.head?.map Failure.error) ∧
      (¬ tree.WithinDigits → ∀ collect, (cache.resolve collect tree mode).1.errors = [] ∧
        (cache.resolve collect tree mode).1.stopped = some (.breakdown .integerTooLong)) := by
  refine ⟨fun hdigits => ?_, fun hlong collect => ?_⟩
  case refine_2 =>
    rw [resolve_of_not_isRenderable ((TokenTree.not_withinDigits_iff tree).mp hlong)]
    exact ⟨rfl, rfl⟩
  have hrenderable := (TokenTree.isRenderable_iff tree).mpr hdigits
  obtain ⟨causes, hmap, horder⟩ := (reports_resolve hrenderable hmemo).exists_metInOrder
  have hmem (cause : Cause) : cause ∈ causes ↔ IsCause tree mode cause := by
    rw [horder.mem_iff]
    refine ⟨fun h => h.1, fun hcause => ⟨hcause, hcause.exists_leadsInto, ?_⟩⟩
    rintro ⟨path, hpath, _⟩
    exact absurd hpath List.not_mem_nil
  refine ⟨⟨causes, hmap, horder.nodup, hmem, horder.ordered, fun path hpath => ?_⟩,
    reportedOnce_eq_self hmap horder.nodup, stopped_eq_head?_of_sound hrenderable hmemo hother⟩
  by_cases hleads : ∃ terminal, Leads tree path terminal
  · exact .inl hleads
  · obtain ⟨cause, hcause, hinto⟩ := exists_isCause mode hpath (not_exists.mp hleads)
    exact .inr ⟨cause, (hmem cause).mpr hcause, hinto⟩

theorem resolve_reports_causes_knottedTree :
    Memo.Sound knottedTree (knottedCache.memoFor "light" knottedTree) ∧
      Memo.Sound knottedTree (empty.memoFor "light" knottedTree) ∧ knottedTree.WithinDigits ∧
      (∃ causes : List Cause,
        (knottedCache.resolve true knottedTree "light").1.errors.map causeOf? = causes.map some ∧
          causes.Nodup ∧
          (∀ cause, cause ∈ causes ↔ IsCause knottedTree "light" cause) ∧
          causes.Pairwise (Precedes knottedTree (OrderedMap.keys knottedTree)) ∧
          ∀ path ∈ OrderedMap.keys knottedTree, (∃ terminal, Leads knottedTree path terminal) ∨
            ∃ cause ∈ causes, LeadsInto knottedTree path cause) ∧
      reportedOnce [] (knottedCache.resolve true knottedTree "light").1.errors =
        (knottedCache.resolve true knottedTree "light").1.errors ∧
      (empty.resolve false knottedTree "light").1.stopped =
        (knottedCache.resolve true knottedTree "light").1.errors.head?.map Failure.error :=
  ⟨sound_knottedCache, Memo.sound_nil _, withinDigits_knottedTree,
    (resolve_reports_causes knottedCache empty knottedTree "light" sound_knottedCache
      (Memo.sound_nil _)).1 withinDigits_knottedTree⟩

/-- A tree with a literal of too many digits and a reference to a path without a token. -/
def longDanglingTree : TokenTree :=
  longTree ++ [(["a"], ⟨["a"], none, .reference ["b"], "base", none⟩)]

theorem isRenderable_longDanglingTree : longDanglingTree.isRenderable = false := by
  rw [← TokenTree.not_withinDigits_iff]
  intro h
  exact not_withinDigits_longTree fun entry hmem => h entry (List.mem_append_left _ hmem)

/-- The dangling reference is a root cause, and yet no call reports it. -/
theorem long_literal_hides_cause :
    IsCause longDanglingTree "light" (.missing "light" ["a"] ["b"]) ∧
      ∀ collect, (empty.resolve collect longDanglingTree "light").1.errors = [] ∧
        (empty.resolve collect longDanglingTree "light").1.stopped =
          some (.breakdown .integerTooLong) := by
  refine ⟨?_, fun collect => ?_⟩
  · have hdangling : OrderedMap.get? longDanglingTree ["a"] =
        some ⟨["a"], none, .reference ["b"], "base", none⟩ := rfl
    exact .missing ⟨_, hdangling, rfl⟩ (by decide)
  · rw [resolve_of_not_isRenderable isRenderable_longDanglingTree]
    exact ⟨rfl, rfl⟩

/-- A single path of the tree that fails is reported by an error that is genuine for it. -/
theorem isGenuine_of_lookUp {start : TokenPath} (hstart : start ∈ OrderedMap.keys tree)
    {e : BuildError} (herror : (cache.lookUp tree mode start).1 = .error e) :
    IsGenuine tree mode start e := by
  rw [lookUp_of_mem hstart] at herror
  rcases (cache.startPass mode tree).resolvePath_cases tree mode hstart with
    ⟨found, hfound⟩ | ⟨e', passed, heq, hanew⟩ | ⟨passed, _, hagain⟩
  · rw [hfound] at herror
    cases herror
  · rw [heq] at herror
    cases herror
    exact hanew.genuine
  · obtain ⟨known, hknown, _⟩ := hagain.known
    exact absurd hknown List.not_mem_nil

/-- Every error shows truly how it came about.  What resolving a whole tree reports is genuine for
the first path that leads into its cause; what stops a strict pass is so for the first path that
leads to no literal, and what the look-up of a path gives for that path. -/
theorem errors_genuine (cache : ResolutionCache) (tree : TokenTree) (mode : String)
    (hmemo : Memo.Sound tree (cache.memoFor mode tree)) :
    (∀ e ∈ (cache.resolve true tree mode).1.errors, ∃ earlier start later cause,
      OrderedMap.keys tree = earlier ++ start :: later ∧ causeOf? e = some cause ∧
        ¬ Met tree earlier cause ∧ IsGenuine tree mode start e) ∧
      (∀ e, (cache.resolve false tree mode).1.stopped = some (.error e) → ∃ earlier start later,
        OrderedMap.keys tree = earlier ++ start :: later ∧
          (∀ path ∈ earlier, ∃ terminal, Leads tree path terminal) ∧
          IsGenuine tree mode start e) ∧
      ∀ start ∈ OrderedMap.keys tree, ∀ e,
        (cache.resolvePath tree mode start).1 = .error (.error e) →
          IsGenuine tree mode start e := by
  cases hrenderable : tree.isRenderable with
  | false =>
    -- Without a fingerprint there is a breakdown, and no error at all.
    simp only [resolve_of_not_isRenderable hrenderable, Outcome.brokenDown,
      resolvePath_of_not_isRenderable hrenderable]
    refine ⟨fun e hmem => absurd hmem List.not_mem_nil, fun e hstopped => ?_,
      fun start hstart e herror => ?_⟩
    · cases hstopped
    · cases herror
  | true =>
    have hreports := reports_resolve hrenderable hmemo
    refine ⟨fun e hmem => hreports.isGenuine hmem, fun e hstopped => ?_,
      fun start hstart e herror => ?_⟩
    · rw [stopped_eq_head?_of_sound hrenderable hmemo hmemo] at hstopped
      obtain ⟨first, hhead, hfirst⟩ := Option.map_eq_some_iff.mp hstopped
      cases hfirst
      obtain ⟨later, herrors⟩ := List.head?_eq_some_iff.mp hhead
      rw [herrors] at hreports
      exact hreports.isGenuine_head fun _ hmem => absurd hmem List.not_mem_nil
    · rw [resolvePath_of_isRenderable hrenderable] at herror
      cases hfound : (cache.lookUp tree mode start).1 with
      | ok value => simp [hfound, Except.mapError] at herror
      | error e' =>
        simp only [hfound, Except.mapError, Except.error.injEq, Failure.error.injEq] at herror
        exact herror ▸ isGenuine_of_lookUp hstart hfound

theorem errors_genuine_knottedTree :
    Memo.Sound knottedTree (knottedCache.memoFor "light" knottedTree) ∧
      .cyclic ⟨"light", [["e"], ["f"], ["e"]]⟩ ∈
        (knottedCache.resolve true knottedTree "light").1.errors ∧
      (∃ earlier start later cause,
        OrderedMap.keys knottedTree = earlier ++ start :: later ∧
          causeOf? (.cyclic ⟨"light", [["e"], ["f"], ["e"]]⟩) = some cause ∧
          ¬ Met knottedTree earlier cause ∧
          IsGenuine knottedTree "light" start (.cyclic ⟨"light", [["e"], ["f"], ["e"]]⟩)) ∧
      (knottedCache.resolve false knottedTree "light").1.stopped =
        some (.error (.unresolved ⟨"light", ["d"], ["x"], [["d"], ["x"]]⟩)) ∧
      (∃ earlier start later, OrderedMap.keys knottedTree = earlier ++ start :: later ∧
        (∀ path ∈ earlier, ∃ terminal, Leads knottedTree path terminal) ∧
        IsGenuine knottedTree "light" start
          (.unresolved ⟨"light", ["d"], ["x"], [["d"], ["x"]]⟩)) ∧
      (knottedCache.resolvePath knottedTree "light" ["f"]).1 =
        .error (.error (.cyclic ⟨"light", [["f"], ["e"], ["f"]]⟩)) ∧
      IsGenuine knottedTree "light" ["f"] (.cyclic ⟨"light", [["f"], ["e"], ["f"]]⟩) := by
  obtain ⟨hgathered, hstrict, hsingle⟩ :=
    errors_genuine knottedCache knottedTree "light" sound_knottedCache
  have herrors : (knottedCache.resolve true knottedTree "light").1.errors =
      [.unresolved ⟨"light", ["d"], ["x"], [["d"], ["x"]]⟩,
        .cyclic ⟨"light", [["e"], ["f"], ["e"]]⟩] := by
    rw [resolve_of_isRenderable isRenderable_knottedTree]
    unfold passOver startPass
    rw [memoFor_knottedCache]
    simp [resolveEntries, Pass.resolvePath, walk, knottedTree, OrderedMap.get?, Pass.remember,
      Pass.fail, OrderedMap.set]
  have hmem : .cyclic ⟨"light", [["e"], ["f"], ["e"]]⟩ ∈
      (knottedCache.resolve true knottedTree "light").1.errors := by
    rw [herrors]
    exact List.mem_cons_of_mem _ List.mem_cons_self
  have hstopped : (knottedCache.resolve false knottedTree "light").1.stopped =
      some (.error (.unresolved ⟨"light", ["d"], ["x"], [["d"], ["x"]]⟩)) := by
    rw [stopped_eq_head?_of_sound isRenderable_knottedTree sound_knottedCache sound_knottedCache,
      herrors]
    rfl
  have hpath : ["f"] ∈ OrderedMap.keys knottedTree := by decide
  have herror : (knottedCache.resolvePath knottedTree "light" ["f"]).1 =
      .error (.error (.cyclic ⟨"light", [["f"], ["e"], ["f"]]⟩)) := by
    rw [resolvePath_of_isRenderable isRenderable_knottedTree]
    simp only
    rw [lookUp_of_mem hpath]
    unfold startPass
    rw [memoFor_knottedCache]
    simp [Pass.resolvePath, walk, knottedTree, OrderedMap.get?, Pass.fail, Except.mapError]
  exact ⟨sound_knottedCache, hmem, hgathered _ hmem, hstopped, hstrict _ hstopped, herror,
    hsingle ["f"] hpath _ herror⟩

end ResolutionCache

end DesignTokens
