import IgnoreRules.Proofs.Workspace.Plain

/-! # What is remembered does not show

Whole runs are compared with runs of the plain workspace. In the plain one it is plain that sets do
not disturb each other: what an action writes is named by it, and so is all that its answer depends
on.
-/

namespace IgnoreRules

def Action.written (name : String) : Action → List String
  | .create _ | .addText _ | .addLines _ | .absorb _ => [name]
  | .clone into => [into]
  | _ => []

def Action.mentioned (name : String) : Action → List String
  | .clone into => [name, into]
  | .absorb source => [name, source]
  | .compiled => []
  | _ => [name]

namespace Workspace

def start (engine : Engine) : Workspace := { compiler := .fresh engine }

def answers (workspace : Workspace) (actions : List (String × Action)) : List Answer :=
  (workspace.run actions).1.map (·.1)

def after (workspace : Workspace) (actions : List (String × Action)) : Workspace :=
  (workspace.run actions).2

def requests (workspace : Workspace) (actions : List (String × Action)) : List MatcherKey :=
  (workspace.run actions).1.flatMap (·.2.compiled)

theorem after_append (workspace : Workspace) (first second : List (String × Action)) :
    workspace.after (first ++ second) = (workspace.after first).after second := by
  induction first generalizing workspace with
  | nil => rfl
  | cons op first ih => exact ih (workspace.perform op.1 op.2).2.1

/-- A run agrees with the run of the plain workspace, answer by answer. -/
theorem StandsFor.run {workspace : Workspace} {plain : PlainWorkspace}
    (h : workspace.StandsFor plain) (actions : List (String × Action)) :
    workspace.answers actions = plain.answers actions ∧
      (workspace.after actions).StandsFor (plain.after actions) ∧
      (plain.after actions).requested = plain.requested ++ workspace.requests actions := by
  induction actions generalizing workspace plain with
  | nil => exact ⟨rfl, h, (List.append_nil _).symm⟩
  | cons op actions ih =>
    obtain ⟨name, action⟩ := op
    have hstep := h.perform name action
    obtain ⟨hanswers, hafter, hrequested⟩ := ih hstep.standsFor
    refine ⟨?_, hafter, ?_⟩
    · rw [PlainWorkspace.answers, ← hanswers, ← hstep.answer]
      rfl
    · rw [PlainWorkspace.after, hrequested, hstep.requested, List.append_assoc]
      rfl

theorem start_standsFor (engine : Engine) : (start engine).StandsFor { engine } :=
  ⟨⟨[], rfl, MemoryValid.empty engine⟩, fun _ => Option.Rel.none⟩

end Workspace

namespace PlainWorkspace

structure AgreeOn (names : String → Prop) (first second : PlainWorkspace) : Prop where
  engine : first.engine = second.engine
  sets : ∀ name, names name → first.sets name = second.sets name

variable {names : String → Prop} {first second third : PlainWorkspace}

theorem AgreeOn.refl (names : String → Prop) (workspace : PlainWorkspace) :
    AgreeOn names workspace workspace := ⟨rfl, fun _ _ => rfl⟩

theorem agreeOn_request (names : String → Prop) (workspace : PlainWorkspace)
    (requested : List MatcherKey) : AgreeOn names workspace { workspace with requested } :=
  ⟨rfl, fun _ _ => rfl⟩

theorem AgreeOn.put (h : AgreeOn names first second) (name : String) (set : PlainSet) :
    AgreeOn names (first.put name set) (second.put name set) := by
  refine ⟨h.engine, ?_⟩
  intro other hother
  by_cases hname : other = name
  · subst hname
    simp [PlainWorkspace.put]
  · simpa [PlainWorkspace.put, hname] using h.sets other hother

theorem AgreeOn.put_right (h : AgreeOn names first second) {name : String} (hname : ¬ names name)
    (set : PlainSet) : AgreeOn names first (second.put name set) := by
  refine ⟨h.engine, ?_⟩
  intro other hother
  have hne : other ≠ name := by
    rintro rfl
    exact hname hother
  simpa [PlainWorkspace.put, hne] using h.sets other hother

theorem AgreeOn.on (h : AgreeOn names first second) {name : String} (hname : names name)
    {work work' : PlainSet → Answer × PlainWorkspace}
    (hwork : ∀ set, (work set).1 = (work' set).1 ∧ AgreeOn names (work set).2 (work' set).2) :
    (first.on name work).1 = (second.on name work').1 ∧
      AgreeOn names (first.on name work).2 (second.on name work').2 := by
  unfold PlainWorkspace.on
  rw [h.sets name hname]
  cases second.sets name with
  | none => exact ⟨rfl, h⟩
  | some set => exact hwork set

theorem AgreeOn.query (h : AgreeOn names first second) {name : String} (hname : names name)
    (answer : Options → List Rule → Answer) :
    (first.query name answer).1 = (second.query name answer).1 ∧
      AgreeOn names (first.query name answer).2 (second.query name answer).2 :=
  h.on hname fun set => ⟨by rw [h.engine], h⟩

theorem AgreeOn.addLines (h : AgreeOn names first second) {name : String} (hname : names name)
    (lines : List Text) :
    (first.on name (first.addLines name lines)).1 =
        (second.on name (second.addLines name lines)).1 ∧
      AgreeOn names (first.on name (first.addLines name lines)).2
        (second.on name (second.addLines name lines)).2 := by
  apply h.on hname
  intro set
  have hbase : AgreeOn names
      { first with requested := first.requested ++
          (PlainRule.ofLines set.options.case lines).map PlainRule.key }
      { second with requested := second.requested ++
          (PlainRule.ofLines set.options.case lines).map PlainRule.key } := ⟨h.engine, h.sets⟩
  exact ⟨rfl, hbase.put name _⟩

/-- An answer depends on the sets that the action mentions, and on nothing else. -/
theorem AgreeOn.perform (h : AgreeOn names first second) {name : String} {action : Action}
    (haction : action ≠ .compiled) (hnames : ∀ n ∈ action.mentioned name, names n) :
    (first.perform name action).1 = (second.perform name action).1 ∧
      AgreeOn names (first.perform name action).2 (second.perform name action).2 := by
  have hname : names name := hnames name (by cases action <;> simp_all [Action.mentioned])
  cases action with
  | create options => exact ⟨rfl, h.put name _⟩
  | clone into => exact h.on hname fun set => ⟨rfl, h.put into set⟩
  | addText text => exact h.addLines hname (Text.lines text)
  | addLines lines => exact h.addLines hname lines
  | absorb source =>
    have hsource : names source := hnames source (by simp [Action.mentioned])
    exact h.on hname fun set => h.on hsource fun other => ⟨rfl, h.put name _⟩
  | compiled => exact absurd rfl haction
  | _ => exact h.query hname _

theorem on_snd_of_forall {P : PlainWorkspace → Prop} {workspace : PlainWorkspace} (h : P workspace)
    (name : String) {work : PlainSet → Answer × PlainWorkspace} (hwork : ∀ set, P (work set).2) :
    P (workspace.on name work).2 := by
  unfold PlainWorkspace.on
  cases workspace.sets name with
  | none => exact h
  | some set => exact hwork set

/-- An action changes no sets but those that it writes. -/
theorem agreeOn_perform {name : String} {action : Action}
    (hnames : ∀ n ∈ action.written name, ¬ names n) (workspace : PlainWorkspace) :
    AgreeOn names workspace (workspace.perform name action).2 := by
  have hrefl := AgreeOn.refl names workspace
  cases action with
  | create options => exact hrefl.put_right (hnames name (by simp [Action.written])) _
  | clone into =>
    have hinto := hnames into (by simp [Action.written])
    exact on_snd_of_forall hrefl name fun set => hrefl.put_right hinto set
  | addText text | addLines lines =>
    have hname := hnames name (by simp [Action.written])
    exact on_snd_of_forall hrefl name fun set =>
      (agreeOn_request names workspace _).put_right hname _
  | absorb source =>
    have hname := hnames name (by simp [Action.written])
    exact on_snd_of_forall hrefl name fun set =>
      on_snd_of_forall hrefl source fun other => hrefl.put_right hname _
  | compiled => exact hrefl
  | _ => exact on_snd_of_forall hrefl name fun set => hrefl

theorem perform_snd_of_written_eq_nil {name : String} {action : Action}
    (h : action.written name = []) (workspace : PlainWorkspace) :
    (workspace.perform name action).2 = workspace := by
  cases action with
  | create options | clone into | addText text | addLines lines | absorb source =>
    simp [Action.written] at h
  | compiled => rfl
  | _ => exact on_snd_of_forall (P := (· = workspace)) rfl name fun set => rfl

theorem AgreeOn.answers_eq (h : AgreeOn names first second) {actions : List (String × Action)}
    (hactions : ∀ op ∈ actions, op.2 ≠ .compiled ∧ ∀ n ∈ op.2.mentioned op.1, names n) :
    first.answers actions = second.answers actions := by
  induction actions generalizing first second with
  | nil => rfl
  | cons op actions ih =>
    obtain ⟨hcompiled, hnames⟩ := hactions op (List.mem_cons_self ..)
    obtain ⟨hanswer, hafter⟩ := h.perform hcompiled hnames
    have hrest := ih hafter fun later hlater => hactions later (List.mem_cons_of_mem _ hlater)
    rw [answers, answers, hanswer, hrest]

theorem AgreeOn.after (h : AgreeOn names first second) {actions : List (String × Action)}
    (hactions : ∀ op ∈ actions, ∀ n ∈ op.2.written op.1, ¬ names n) :
    AgreeOn names first (second.after actions) := by
  induction actions generalizing second with
  | nil => exact h
  | cons op actions ih =>
    have hstep := agreeOn_perform (hactions op (List.mem_cons_self ..)) second
    exact ih ⟨h.engine.trans hstep.engine, fun n hn => (h.sets n hn).trans (hstep.sets n hn)⟩
      fun later hlater => hactions later (List.mem_cons_of_mem _ hlater)

theorem after_append (workspace : PlainWorkspace) (first second : List (String × Action)) :
    workspace.after (first ++ second) = (workspace.after first).after second := by
  induction first generalizing workspace with
  | nil => rfl
  | cons op first ih => exact ih (workspace.perform op.1 op.2).2

end PlainWorkspace

namespace Workspace

/-- Later answers after a history are those of the plain workspace after the same history. -/
theorem answers_after (engine : Engine) (history later : List (String × Action)) :
    ((start engine).after history).answers later =
      (({ engine } : PlainWorkspace).after history).answers later :=
  (((start_standsFor engine).run history).2.1.run later).1

/-- Neither the notes of a set nor the memory of the compiler can be told from the answers. These
are in every run those of the plain workspace, so sets do not disturb each other: what is done to
sets of other names, be they copies, sources or targets, changes no later answer, and neither does
an action that writes nothing. An absorbed rule stays as it is, its mode included, and the compiler
remembers one matcher for each key that was asked for. -/
theorem memories_invisible (engine : Engine) (history : List (String × Action)) :
    (start engine).answers history = ({ engine } : PlainWorkspace).answers history ∧
      (∀ (names : String → Prop) (between later : List (String × Action)),
        (∀ op ∈ between, ∀ n ∈ op.2.written op.1, ¬ names n) →
        (∀ op ∈ later, op.2 ≠ .compiled ∧ ∀ n ∈ op.2.mentioned op.1, names n) →
        ((start engine).after (history ++ between)).answers later =
          ((start engine).after history).answers later) ∧
      (∀ (query : String × Action) (later : List (String × Action)),
        query.2.written query.1 = [] →
        ((start engine).after (history ++ [query])).answers later =
          ((start engine).after history).answers later) ∧
      (∀ name source set other,
        ((start engine).after history).get? name = some set →
        ((start engine).after history).get? source = some other →
        ((start engine).after history).answers [(name, .absorb source), (name, .rules)] =
          [.count (set.rules.length + other.rules.length), .rules (set.rules ++ other.rules)]) ∧
      ((start engine).after history).compiler.size =
        ((start engine).requests history).toFinset.card := by
  obtain ⟨hanswers, hafter, hrequested⟩ := (start_standsFor engine).run history
  refine ⟨hanswers, ?_, ?_, ?_, ?_⟩
  · intro names between later hbetween hlater
    rw [answers_after, answers_after, PlainWorkspace.after_append]
    have hagree := (PlainWorkspace.AgreeOn.refl names
      (({ engine } : PlainWorkspace).after history)).after hbetween
    exact (hagree.answers_eq hlater).symm
  · intro query later hquery
    rw [answers_after, answers_after, PlainWorkspace.after_append]
    exact congrArg (·.answers later) (PlainWorkspace.perform_snd_of_written_eq_nil hquery _)
  · intro name source set other hset hother
    simp [answers, run, perform, Workspace.on, hset, hother, get?_put, RuleSet.rules_append]
  · obtain ⟨made, hcompiler, hmade⟩ := hafter.compiler
    rw [hrequested] at hmade
    rw [hcompiler]
    exact hmade.length_eq

/-- What is added to a set after it has absorbed another does not reach the other one. -/
theorem memories_invisible_absorbed :
    ((start .bounded).after ([("a", .create {}), ("a", .addText ['x']), ("b", .create {})] ++
        [("b", .absorb "a"), ("b", .addLines [['!', 'x']])])).answers [("a", .test ['x'])] =
      ((start .bounded).after [("a", .create {}), ("a", .addText ['x']),
        ("b", .create {})]).answers [("a", .test ['x'])] :=
  (memories_invisible .bounded
    [("a", .create {}), ("a", .addText ['x']), ("b", .create {})]).2.1 (· = "a")
    [("b", .absorb "a"), ("b", .addLines [['!', 'x']])] [("a", .test ['x'])]
    (by simp [Action.written]) (by simp [Action.mentioned])

end Workspace

end IgnoreRules
