import IgnoreRules.Proofs.RuleSet.Questions
import Mathlib.Data.List.Forall2
import Mathlib.Data.List.Nodup

/-! # The work of queries

Every step of the way down is judged when it is first met and is noted then; a step that is noted is
not judged again. So the questions of a query, and of any number of queries, are those of certain
steps, each judged once, in the order in which they are met.
-/

namespace IgnoreRules

namespace RuleSet

def Noted (set : RuleSet) (path : Text) : Prop := (set.noted? path).isSome = true

theorem noted_note {set : RuleSet} {path other : Text} {verdict : Verdict} :
    (set.note path verdict).Noted other ↔ set.Noted other ∨ other = path := by
  rw [Noted, noted?_note, Noted]
  split
  · next heq => simp [heq]
  · next hne => simp [hne]

/-- From one set to the other some steps have been judged, each of them for the first time, and the
questions are those that judge them. -/
structure Accounts (before : RuleSet) (judged : List Text) (after : RuleSet)
    (questions : List Question) : Prop extends QueriedFrom before after where
  nodup : judged.Nodup
  fresh : ∀ step ∈ judged, ¬ before.Noted step
  noted_iff : ∀ step, after.Noted step ↔ before.Noted step ∨ step ∈ judged
  questions_eq : questions = judged.flatMap (questionsOn before.rules)

variable {set before middle after : RuleSet} {judged judged' paths paths' : List Text}
  {questions questions' : List Question} {path : Text}

theorem NotesValid.accounts (h : NotesValid set) : Accounts set [] set [] :=
  ⟨h.queried, .nil, by simp, by simp, rfl⟩

theorem Accounts.noted (h : Accounts before judged after questions) (hpath : before.Noted path) :
    after.Noted path := (h.noted_iff path).mpr (Or.inl hpath)

theorem Accounts.trans (h : Accounts before judged middle questions)
    (h' : Accounts middle judged' after questions') :
    Accounts before (judged ++ judged') after (questions ++ questions') := by
  have hdisjoint : ∀ step ∈ judged, ∀ step' ∈ judged', step ≠ step' := by
    intro step hstep step' hstep' heq
    rw [← heq] at hstep'
    exact h'.fresh step hstep' ((h.noted_iff step).mpr (Or.inr hstep))
  refine ⟨h.toQueriedFrom.trans h'.toQueriedFrom, List.nodup_append.mpr
    ⟨h.nodup, h'.nodup, hdisjoint⟩, ?_, ?_, ?_⟩
  · intro step hstep
    rcases List.mem_append.mp hstep with hfirst | hsecond
    · exact h.fresh step hfirst
    · exact fun hnoted => h'.fresh step hsecond (h.noted hnoted)
  · intro step
    rw [h'.noted_iff, h.noted_iff, List.mem_append, or_assoc]
  · rw [h.questions_eq, h'.questions_eq, h.rules, List.flatMap_append]

/-! ## One path -/

theorem visit_accounts (h : NotesValid set) (step : Text) :
    let outcome := set.visit (walk set.rules {} (ancestors step)) step
    ∃ judged, judged.Sublist [step] ∧ Accounts set judged outcome.2.1 outcome.2.2 ∧
      outcome.2.1.Noted step := by
  have hqueried := (visit_spec h step).2
  unfold visit at hqueried ⊢
  cases hnoted : set.noted? step with
  | some verdict =>
    have hstep : set.Noted step := by simp [Noted, hnoted]
    exact ⟨[], List.nil_sublist _, h.accounts, hstep⟩
  | none =>
    rw [hnoted] at hqueried
    refine ⟨[step], List.Sublist.refl _, ⟨hqueried, List.nodup_singleton _, ?_, ?_, ?_⟩, ?_⟩
    · simp [Noted, hnoted]
    · simp [noted_note]
    · simp [questionsOn]
    · exact noted_note.mpr (Or.inr rfl)

/-- On the way down from a step on, the steps that are not noted yet are judged one after the
other. -/
theorem descend_accounts (h : NotesValid set) {before steps : List Text}
    (hsteps : ∀ front step back, steps = front ++ step :: back → ancestors step = before ++ front) :
    let outcome := set.descend (walk set.rules {} before) steps
    ∃ judged, judged.Sublist steps ∧ Accounts set judged outcome.2.1 outcome.2.2 ∧
      ∀ step ∈ steps, outcome.2.1.Noted step := by
  induction steps generalizing set before with
  | nil => exact ⟨[], .refl _, h.accounts, by simp⟩
  | cons step steps ih =>
    have hanc : ancestors step = before := by simpa using hsteps [] step steps rfl
    have hverdict := (visit_spec h step).1
    obtain ⟨first, hfirst, hvisit, hnoted⟩ := visit_accounts h step
    rw [hanc] at hverdict hvisit hnoted
    have hnext : plainVerdict set.rules step = walk set.rules {} (before ++ [step]) := by
      rw [plainVerdict_eq_walk, way, hanc]
    have hlater : ∀ front later back, steps = front ++ later :: back →
        ancestors later = before ++ [step] ++ front := by
      intro front later back heq
      simpa using hsteps (step :: front) later back (by rw [heq]; rfl)
    obtain ⟨rest, hrest, hdescend, hall⟩ := ih hvisit.notes hlater
    rw [hvisit.rules, ← hnext, ← hverdict] at hdescend hall
    refine ⟨first ++ rest, hfirst.append hrest, hvisit.trans hdescend, ?_⟩
    intro other hother
    rcases List.mem_cons.mp hother with hsame | hbelow
    · rw [hsame]
      exact hdescend.noted hnoted
    · exact hall other hbelow

/-- A path has been judged: some steps of the way down to it, if it was not noted, and it is noted
then. -/
structure JudgedOn (before : RuleSet) (path : Text) (run : List Text) (after : RuleSet)
    (questions : List Question) : Prop extends Accounts before run after questions where
  sublist : run.Sublist (way path)
  nil_of_noted : before.Noted path → run = []
  noted_path : after.Noted path

theorem evaluate_judged (h : NotesValid set) (path : RelativePath) :
    ∃ run, JudgedOn set path.text run (set.evaluate path).2.1 (set.evaluate path).2.2 := by
  unfold evaluate
  cases hnoted : set.noted? path.text with
  | some verdict =>
    have hpath : set.Noted path.text := by simp [Noted, hnoted]
    exact ⟨[], h.accounts, List.nil_sublist _, fun _ => rfl, hpath⟩
  | none =>
    obtain ⟨run, hrun, haccounts, hall⟩ := descend_accounts h (before_step_of_way path.text)
    have hnew : ¬ set.Noted path.text := by simp [Noted, hnoted]
    exact ⟨run, haccounts, hrun, fun hpath => absurd hpath hnew, hall path.text (by simp [way])⟩

/-! ## Paths one after the other -/

inductive Judges : RuleSet → List Text → RuleSet → List Question → Prop
  | nil {set : RuleSet} (h : NotesValid set) : Judges set [] set []
  | cons {before middle after : RuleSet} {path : Text} {run paths : List Text}
      {questions later : List Question} (hfirst : JudgedOn before path run middle questions)
      (hrest : Judges middle paths after later) :
      Judges before (path :: paths) after (questions ++ later)

theorem Judges.accounts (h : Judges before paths after questions) :
    ∃ judged, Accounts before judged after questions ∧ ∀ path ∈ paths, after.Noted path := by
  induction h with
  | nil h => exact ⟨[], h.accounts, by simp⟩
  | @cons before middle after path run paths questions later hfirst _ ih =>
    obtain ⟨judged, hrest, hall⟩ := ih
    refine ⟨run ++ judged, hfirst.toAccounts.trans hrest, ?_⟩
    intro other hother
    rcases List.mem_cons.mp hother with hsame | hlater
    · rw [hsame]
      exact hrest.noted hfirst.noted_path
    · exact hall other hlater

/-- About paths that are noted already nothing is asked. -/
theorem Judges.questions_eq_nil (h : Judges before paths after questions)
    (hall : ∀ path ∈ paths, before.Noted path) : questions = [] := by
  induction h with
  | nil h => rfl
  | cons hfirst _ ih =>
    have hrun := hfirst.nil_of_noted (hall _ List.mem_cons_self)
    have hquestions := hfirst.questions_eq
    rw [hrun] at hquestions
    have hlater := ih fun path hpath => hfirst.noted (hall path (List.mem_cons_of_mem _ hpath))
    rw [hquestions, hlater]
    rfl

/-! ## Order and uniqueness -/

/-- The way down to a path goes from each directory to those below it. -/
theorem pairwise_way (path : Text) : (way path).Pairwise (· ∈ ancestors ·) := by
  rw [List.pairwise_iff_getElem]
  intro i j hi hj hij
  have hsplit : way path = (way path).take j ++ (way path)[j] :: (way path).drop (j + 1) := by
    rw [List.getElem_cons_drop, List.take_append_drop]
  have hancestors : ancestors (way path)[j] = (way path).take j := by
    simpa using before_step_of_way path _ _ _ hsplit
  rw [hancestors, List.mem_take_iff_getElem]
  exact ⟨i, by omega, rfl⟩

/-- The questions are about steps of the way down to the path. They go from each directory to those
below it, and on each step from rule to rule. -/
structure GoDown (path : Text) (questions : List Question) : Prop where
  ordered : questions.Pairwise Question.Before
  on_way : ∀ question ∈ questions, question.path ∈ way path

theorem JudgedOn.goDown {run : List Text} (h : JudgedOn before path run after questions) :
    GoDown path questions := by
  rw [h.questions_eq]
  refine ⟨List.pairwise_flatMap.mpr ⟨?_, ?_⟩, ?_⟩
  · intro step _
    refine (pairwise_questionsOn before.rules step).imp_of_mem ?_
    intro first second hfirst hsecond hposition
    have hsame := (asked_of_mem_questionsOn hfirst).1.path_eq
    have hsame' := (asked_of_mem_questionsOn hsecond).1.path_eq
    exact Or.inr ⟨hsame.trans hsame'.symm, hposition⟩
  · refine ((pairwise_way path).sublist h.sublist).imp ?_
    intro outer inner houter first hfirst second hsecond
    rw [← (asked_of_mem_questionsOn hfirst).1.path_eq,
      ← (asked_of_mem_questionsOn hsecond).1.path_eq] at houter
    exact Or.inl houter
  · intro question hquestion
    obtain ⟨step, hstep, hmem⟩ := List.mem_flatMap.mp hquestion
    rw [(asked_of_mem_questionsOn hmem).1.path_eq]
    exact h.sublist.subset hstep

/-- The questions of a query fall into one block for each path, and each block is in order. -/
theorem Judges.exists_blocks (h : Judges before paths after questions) :
    ∃ blocks : List (List Question), questions = blocks.flatten ∧
      List.Forall₂ GoDown paths blocks := by
  induction h with
  | nil h => exact ⟨[], rfl, .nil⟩
  | @cons before middle after path run paths questions later hfirst _ ih =>
    obtain ⟨blocks, hlater, hblocks⟩ := ih
    exact ⟨questions :: blocks, by rw [hlater, List.flatten_cons], .cons hfirst.goDown hblocks⟩

/-- No rule is asked twice about a step: different steps are judged, and on each of them every rule
is asked at most once. -/
theorem Accounts.nodup_map (h : Accounts before judged after questions) :
    (questions.map fun question => (question.position, question.path)).Nodup := by
  rw [List.Nodup, List.pairwise_map, h.questions_eq, List.pairwise_flatMap]
  constructor
  · intro step _
    refine (pairwise_questionsOn before.rules step).imp ?_
    intro first second hposition heq
    have hsame : first.position = second.position := congrArg Prod.fst heq
    omega
  · refine h.nodup.imp ?_
    intro step step' hne first hfirst second hsecond heq
    have hpath : first.path = second.path := congrArg Prod.snd heq
    rw [(asked_of_mem_questionsOn hfirst).1.path_eq,
      (asked_of_mem_questionsOn hsecond).1.path_eq] at hpath
    exact hne hpath

theorem Accounts.asked (h : Accounts before judged after questions) :
    ∀ question ∈ questions, before.rules[question.position]? = some question.rule ∧
      (∀ above ∈ ancestors question.path, (plainVerdict before.rules above).ignored = false) ∧
      (applyRules question.path 0 .included (before.rules.take question.position)).1.canChange
        question.rule.polarity = true := by
  intro question hquestion
  rw [h.questions_eq] at hquestion
  obtain ⟨step, -, hmem⟩ := List.mem_flatMap.mp hquestion
  obtain ⟨hasked, habove⟩ := asked_of_mem_questionsOn hmem
  rw [hasked.path_eq]
  exact ⟨hasked.rule_eq, habove, hasked.canChange⟩

/-! ## Queries -/

def accepted (policy : PathPolicy) (paths : List Text) : List Text :=
  paths.filterMap fun path => (RelativePath.parse policy path).toOption.map (·.text)

theorem accepted_cons_of_ok {policy : PathPolicy} {relative : RelativePath}
    (h : RelativePath.parse policy path = .ok relative) (paths : List Text) :
    accepted policy (path :: paths) = relative.text :: accepted policy paths :=
  List.filterMap_cons_some (by rw [h]; rfl)

theorem accepted_cons_of_error {policy : PathPolicy} {error : PathError}
    (h : RelativePath.parse policy path = .error error) (paths : List Text) :
    accepted policy (path :: paths) = accepted policy paths :=
  List.filterMap_cons_none (by rw [h]; rfl)

/-- A query on one path: it is refused before anything is asked, or it is judged. -/
theorem ignores_judged (h : NotesValid set) (path : Text) :
    (∃ error, RelativePath.parse set.options.policy path = .error error ∧
        set.ignores path = (.error error, set, [])) ∨
      ∃ relative ignored after questions run,
        RelativePath.parse set.options.policy path = .ok relative ∧
        set.ignores path = (.ok ignored, after, questions) ∧
        JudgedOn set relative.text run after questions := by
  cases hparse : RelativePath.parse set.options.policy path with
  | error error =>
    refine Or.inl ⟨error, rfl, ?_⟩
    rw [ignores, test, hparse]
    rfl
  | ok relative =>
    obtain ⟨run, hrun⟩ := evaluate_judged h relative
    refine Or.inr ⟨relative, (set.evaluate relative).1.ignored, _, _, run, rfl, ?_, hrun⟩
    rw [ignores, test, hparse]
    rfl

theorem ignores_judges (h : NotesValid set) (path : Text) :
    Judges set (accepted set.options.policy [path]) (set.ignores path).2.1
      (set.ignores path).2.2 := by
  rcases ignores_judged h path with
    ⟨error, hparse, houtcome⟩ | ⟨relative, ignored, after, questions, run, hparse, houtcome, hrun⟩
  · rw [accepted_cons_of_error hparse, houtcome]
    exact .nil h
  · have hjudges := Judges.cons hrun (.nil hrun.notes)
    rw [List.append_nil] at hjudges
    rw [accepted_cons_of_ok hparse, houtcome]
    exact hjudges

theorem keeps_judges (h : NotesValid set) (paths : List Text) :
    Judges set (accepted set.options.policy paths) (set.keeps paths).2.1 (set.keeps paths).2.2 := by
  induction paths generalizing set with
  | nil => exact .nil h
  | cons path paths ih =>
    rcases ignores_judged h path with
      ⟨error, hparse, houtcome⟩ | ⟨relative, ignored, after, questions, run, hparse, houtcome, hrun⟩
    · rw [accepted_cons_of_error hparse]
      simpa only [keeps, houtcome, List.nil_append] using ih h
    · have hrest := ih hrun.notes
      rw [hrun.options] at hrest
      rw [accepted_cons_of_ok hparse]
      simpa only [keeps, houtcome] using Judges.cons hrun hrest

/-- Filtering judges paths up to the first that is refused. -/
theorem filter_judges (h : NotesValid set) (paths : List Text) :
    Judges set
      (accepted set.options.policy (paths.takeWhile (RelativePath.isValid set.options.policy)))
      (set.filter paths).2.1 (set.filter paths).2.2 := by
  induction paths generalizing set with
  | nil => exact .nil h
  | cons path paths ih =>
    rcases ignores_judged h path with
      ⟨error, hparse, houtcome⟩ | ⟨relative, ignored, after, questions, run, hparse, houtcome, hrun⟩
    · have hvalid : RelativePath.isValid set.options.policy path = false := by
        rw [RelativePath.isValid, hparse]
      rw [List.takeWhile_cons_of_neg (by simp [hvalid])]
      simp only [filter, houtcome]
      exact .nil h
    · have hvalid : RelativePath.isValid set.options.policy path = true := by
        rw [RelativePath.isValid, hparse]
      have hrest := ih hrun.notes
      rw [hrun.options] at hrest
      rw [List.takeWhile_cons_of_pos hvalid, accepted_cons_of_ok hparse]
      simpa only [filter, houtcome] using Judges.cons hrun hrest

end RuleSet

end IgnoreRules
