import IgnoreRules.Proofs.RuleSet.Monotone

/-! # Decisions by exclusive or

Whether a path is ignored can be told from a single truth value that is handed from rule to rule. A
rule is passed over if the value is true and the rule is not negative, or the other way round; if
not, the value becomes the answer of the matcher, turned around for a negative rule. The states of a
decision follow this value at every step, although a decision passes over fewer rules: it also asks
negative rules while nothing is excluded, and so knows in the end whether the last match was theirs.
-/

namespace IgnoreRules

structure Reply where
  negative : Bool
  matched : Bool

def Rule.reply (rule : Rule) (path : Text) : Reply := ⟨rule.key.negative, rule.applies path⟩

namespace Reply

def xorStep (ignored : Bool) (reply : Reply) : Bool :=
  if ignored ^^ reply.negative then ignored else reply.negative ^^ reply.matched

def xorAll (replies : List Reply) : Bool := replies.foldl xorStep false

end Reply

namespace Decision

def applyAll (state : Decision) (replies : List Reply) : Decision :=
  replies.foldl (fun state reply => state.apply (.ofNegative reply.negative) reply.matched) state

/-- A pass over the rules. What cannot change the state may be skipped, whatever it would say. -/
inductive Passes : Decision → List Reply → Decision → Prop
  | done (state : Decision) : Passes state [] state
  | ask {state final : Decision} {reply : Reply} {replies : List Reply}
      (hrest : Passes (state.apply (.ofNegative reply.negative) reply.matched) replies final) :
      Passes state (reply :: replies) final
  | skip {state final : Decision} {reply : Reply} {replies : List Reply}
      (hstate : state.canChange (.ofNegative reply.negative) = false)
      (hrest : Passes state replies final) : Passes state (reply :: replies) final

variable {state final : Decision} {reply : Reply} {replies before after : List Reply}

theorem passes_applyAll (state : Decision) (replies : List Reply) :
    Passes state replies (state.applyAll replies) := by
  induction replies generalizing state with
  | nil => exact .done state
  | cons reply replies ih => exact .ask (ih _)

/-- All passes over the same rules end in the same state. -/
theorem Passes.eq_applyAll (h : Passes state replies final) : final = state.applyAll replies := by
  induction h with
  | done state => rfl
  | ask _ ih => exact ih
  | skip hstate _ ih => rw [ih, applyAll, applyAll, List.foldl_cons, apply_of_not_canChange hstate]

theorem passes_iff : Passes state replies final ↔ final = state.applyAll replies :=
  ⟨Passes.eq_applyAll, fun h => h ▸ passes_applyAll state replies⟩

theorem applyAll_replies (path : Text) (state : Decision) (rules : List Rule) :
    state.applyAll (rules.map (·.reply path)) =
      rules.foldl (fun state rule => state.apply rule.polarity (rule.applies path)) state := by
  rw [applyAll, List.foldl_map]
  rfl

/-! ## The state and the value -/

/-- One step of a decision is one of the value. A negative rule is passed over for the value while
nothing is excluded; for the decision it then leads to a state that is not ignored either. -/
theorem ignored_apply (state : Decision) (reply : Reply) :
    (state.apply (.ofNegative reply.negative) reply.matched).verdict.ignored =
      Reply.xorStep state.verdict.ignored reply := by
  obtain ⟨negative, matched⟩ := reply
  -- Whether the value is passed over depends on the rule being negative, not on its match.
  cases negative with
  | false => cases state <;> cases matched <;> rfl
  | true => cases state <;> cases matched <;> rfl

theorem ignored_applyAll (state : Decision) (replies : List Reply) :
    (state.applyAll replies).verdict.ignored =
      replies.foldl Reply.xorStep state.verdict.ignored := by
  induction replies generalizing state with
  | nil => rfl
  | cons reply replies ih =>
    rw [List.foldl_cons, ← ignored_apply]
    exact ih _

/-! ## The last match -/

theorem applyAll_of_silent (h : ∀ reply ∈ replies, reply.matched = false) (state : Decision) :
    state.applyAll replies = state := by
  induction replies with
  | nil => rfl
  | cons reply replies ih =>
    obtain ⟨hreply, hreplies⟩ := List.forall_mem_cons.mp h
    rw [applyAll, List.foldl_cons, hreply, apply_false]
    exact ih hreplies

/-- The last rule that matches decides, whatever the state was. -/
theorem applyAll_of_last (hreply : reply.matched = true)
    (hafter : ∀ later ∈ after, later.matched = false) (state : Decision) :
    state.applyAll (before ++ reply :: after) = target (.ofNegative reply.negative) := by
  rw [applyAll, List.foldl_append, List.foldl_cons, hreply, apply_true]
  exact applyAll_of_silent hafter _

/-- Either no rule matches, or one of those that match is the last. -/
theorem silent_or_exists_last (replies : List Reply) :
    (∀ reply ∈ replies, reply.matched = false) ∨
      ∃ before reply after, replies = before ++ reply :: after ∧ reply.matched = true ∧
        ∀ later ∈ after, later.matched = false := by
  induction replies with
  | nil => exact Or.inl (by simp)
  | cons first replies ih =>
    rcases ih with hsilent | ⟨before, reply, after, rfl, hreply, hafter⟩
    · cases hfirst : first.matched with
      | false => exact Or.inl (List.forall_mem_cons.mpr ⟨hfirst, hsilent⟩)
      | true => exact Or.inr ⟨[], first, replies, rfl, hfirst, hsilent⟩
    · exact Or.inr ⟨first :: before, reply, after, rfl, hreply, hafter⟩

theorem unignored_applyAll_iff :
    (included.applyAll replies).verdict.unignored = true ↔
      ∃ before after, replies = before ++ ⟨true, true⟩ :: after ∧
        ∀ later ∈ after, later.matched = false := by
  constructor
  · intro h
    rcases silent_or_exists_last replies with hsilent | ⟨before, reply, after, rfl, hreply, hafter⟩
    · rw [applyAll_of_silent hsilent] at h
      cases h
    · rw [applyAll_of_last hreply hafter] at h
      obtain ⟨negative, matched⟩ := reply
      obtain rfl : matched = true := hreply
      cases negative with
      | false => cases h
      | true => exact ⟨before, after, rfl, hafter⟩
  · rintro ⟨before, after, rfl, hafter⟩
    rw [applyAll_of_last rfl hafter]
    rfl

/-- A decision ignores what the value ignores, and includes again what a negative rule matched last.
It does so whether or not the rules that cannot change the state are asked; a set does not ask
them. -/
theorem refines_exclusiveOr (replies : List Reply) :
    (included.applyAll replies).verdict.ignored = Reply.xorAll replies ∧
      ((included.applyAll replies).verdict.unignored = true ↔
        ∃ before after, replies = before ++ ⟨true, true⟩ :: after ∧
          ∀ later ∈ after, later.matched = false) ∧
      (∀ final, Passes included replies final ↔ final = included.applyAll replies) ∧
      ∀ (rules : List Rule) (path : Text) (position : Nat),
        (RuleSet.applyRules path position included rules).1 =
          included.applyAll (rules.map (·.reply path)) :=
  ⟨ignored_applyAll included replies, unignored_applyAll_iff, fun _ => passes_iff,
    fun rules path position => by rw [RuleSet.applyRules_fst, applyAll_replies]⟩

/-- The value never changes here, but the path is included again expressly. -/
example : Reply.xorAll [⟨true, true⟩, ⟨true, false⟩] = false ∧
    (included.applyAll [⟨true, true⟩, ⟨true, false⟩]).verdict = ⟨false, true⟩ := ⟨rfl, rfl⟩

end Decision

namespace RuleSet

theorem xorAll_replies (rules : List Rule) (path : Text) :
    Reply.xorAll (rules.map (·.reply path)) = decide (own rules path = some .exclude) := by
  have hstate : Decision.included.applyAll (rules.map (·.reply path)) = decideAll rules path :=
    Decision.applyAll_replies path .included rules
  calc Reply.xorAll (rules.map (·.reply path))
      = (Decision.included.applyAll (rules.map (·.reply path))).verdict.ignored :=
        (Decision.ignored_applyAll .included _).symm
    _ = decide (decideAll rules path = .excluded) := by rw [hstate, Decision.verdict]
    _ = decide (own rules path = some .exclude) := by
        rw [decide_eq_decide, decideAll_eq_excluded_iff]

/-- Whatever has happened to a set, it ignores a checked path exactly if the value does for the path
or for a directory above it. -/
theorem Reachable.ignores_eq_any_xorAll {set : RuleSet} (hset : Reachable set) {input : Text}
    {path : RelativePath} (hpath : RelativePath.parse set.options.policy input = .ok path) :
    (set.ignores input).1 =
      .ok ((way path.text).any fun step => Reply.xorAll (set.rules.map (·.reply step))) := by
  rw [hset.ignores_eq hpath, plainVerdict_eq]
  simp only [xorAll_replies]
  split
  · next hany => rw [hany]
  · next hnone => rw [Bool.eq_false_iff.mpr hnone]

end RuleSet

end IgnoreRules
