import IgnoreRules.Proofs.Regex.Span
import IgnoreRules.Proofs.Regex.Unambiguous

/-! # Source texts are read back

Whatever characters an expression holds, its source text is read as the expression itself: none of
them is taken for an operator, and no operator for another one. Only the two spellings of a class
leave a trace, for there is a tree for each of them.
-/

namespace IgnoreRules

theorem hexNumberFrom?_append (digits digits' : Text) (value : Nat) :
    hexNumberFrom? value (digits ++ digits') =
      (hexNumberFrom? value digits).bind fun value => hexNumberFrom? value digits' := by
  induction digits generalizing value with
  | nil => rfl
  | cons c digits ih =>
    rw [List.cons_append, hexNumberFrom?, hexNumberFrom?]
    cases hexValue? c with
    | none => rfl
    | some digit => exact ih (16 * value + digit)

theorem hexNumber?_hexDigits (n : Nat) : hexNumber? (hexDigits n) = some n := by
  have hdigit : ∀ d < 16, hexValue? d.digitChar.toUpper = some d := by decide
  have hone : ∀ value d, d < 16 →
      hexNumberFrom? value [d.digitChar.toUpper] = some (16 * value + d) := by
    intro value d hd
    rw [hexNumberFrom?, hdigit d hd]
    rfl
  rw [hexNumber?, hexDigits]
  induction n using Nat.strongRecOn with
  | ind n ih =>
    by_cases hlt : n < 16
    · rw [Nat.toDigits_of_lt_base hlt, List.map_singleton, hone 0 n hlt]
      simp
    · have hle : 16 ≤ n := by omega
      have hsplit : 16 * (n / 16) + n % 16 = n := by omega
      rw [Nat.toDigits_of_base_le (by decide) hle, List.map_append, hexNumberFrom?_append,
        ih (n / 16) (by omega), List.map_singleton, Option.bind_some,
        hone (n / 16) (n % 16) (by omega), hsplit]

theorem hexDigits_ne_nil (n : Nat) : hexDigits n ≠ [] := by
  rw [hexDigits, Ne, List.map_eq_nil_iff]
  exact Nat.toDigits_ne_nil

theorem spells_literalSource (c : Char) : Spells reservedOutside c (literalSource c) := by
  unfold literalSource
  split
  · next h => exact .escaped h
  · next h =>
    refine .plain fun hreserved => h ?_
    have hall : reservedOutside.all (· ∈ operatorChars) = true := by decide
    exact of_decide_eq_true (List.all_eq_true.mp hall c hreserved)

namespace ClassMember

theorem spells_charSource (c : Char) : Spells reservedInside c (charSource c) := by
  unfold charSource
  split
  · next h =>
    refine .plain fun hreserved => ?_
    have hnone : reservedInside.any isAlphanumeric = false := by decide
    exact List.any_eq_false.mp hnone c hreserved h
  · exact .code (hexDigits_ne_nil _) (hexNumber?_hexDigits _)

def IsOrdered : ClassMember → Prop
  | .char _ => True
  | .range lo hi => lo ≤ hi

theorem spells_source {m : ClassMember} (h : m.IsOrdered) : SpellsMember m m.source := by
  cases m with
  | char c => exact .char (spells_charSource c)
  | range lo hi => exact .range (spells_charSource lo) (spells_charSource hi) h

theorem row_source {members : List ClassMember} (h : ∀ m ∈ members, m.IsOrdered) :
    Row SpellsMember members (members.flatMap (·.source)) := by
  induction members with
  | nil => exact .nil
  | cons m members ih =>
    obtain ⟨hm, hms⟩ := List.forall_mem_cons.mp h
    exact .cons (spells_source hm) (ih hms)

end ClassMember

/-- The class as it is read: `/` is a member of a negated class, and any other class meets the
class of all characters but `/`. -/
def CharClass.bracket (cls : CharClass) : Bracket :=
  if cls.negated then .union true (.char '/' :: cls.members)
  else .meet false cls.members (.union true [.char '/'])

def CharClass.IsReadable (cls : CharClass) : Prop :=
  cls.isEmpty = false ∧ ∀ m ∈ cls.members, m.IsOrdered

theorem CharClass.spells_source {cls : CharClass} (h : cls.IsReadable) :
    SpellsBracket cls.bracket cls.source := by
  obtain ⟨hempty, hordered⟩ := h
  have hslash : SpellsMember (.char '/') ['/'] := .char (.plain (by decide))
  have hmembers := ClassMember.row_source hordered
  unfold bracket source
  cases hnegated : cls.negated with
  | true =>
    have hrow : Row SpellsMember (.char '/' :: cls.members)
        (['/'] ++ cls.members.flatMap (·.source)) := .cons hslash hmembers
    have hunion : SpellsBracket (.union true (.char '/' :: cls.members)) _ :=
      .union hrow (List.cons_ne_nil _ _)
    simpa [bracketStart] using hunion
  | false =>
    have hne : cls.members ≠ [] := by
      intro hnil
      rw [isEmpty, hnegated, hnil] at hempty
      exact absurd hempty (by decide)
    have hother : SpellsBracket (.union true [.char '/'])
        (bracketStart true ++ (['/'] ++ [] ++ [']'])) :=
      .union (.cons hslash .nil) (List.cons_ne_nil _ _)
    have hmeet : SpellsBracket (.meet false cls.members (.union true [.char '/'])) _ :=
      .meet hmembers hne hother
    simpa [bracketStart] using hmeet

namespace Atom

def leaf : Atom → Leaf
  | .literal c => .literal c
  | .any => .any
  | .oneOf cls => .bracket cls.bracket

def IsReadable : Atom → Prop
  | .literal _ => True
  | .any => True
  | .oneOf cls => cls.IsReadable

theorem spells_source {a : Atom} (h : a.IsReadable) : SpellsSign (.leaf a.leaf) a.source := by
  cases a with
  | literal c => exact .literal (spells_literalSource c)
  | any => exact .operator (by decide)
  | oneOf cls => exact .bracket (CharClass.spells_source h)

end Atom

theorem Row.append {α : Type} {R : α → Text → Prop} {as bs : List α} {text text' : Text}
    (h : Row R as text) (h' : Row R bs text') : Row R (as ++ bs) (text ++ text') := by
  induction h with
  | nil => exact h'
  | cons ha _ ih =>
    rw [List.append_assoc]
    exact .cons ha ih

theorem row_operator {sign : Sign} {text : Text} (h : (sign, text) ∈ signTable) :
    Row SpellsSign [sign] text := by
  have hrow : Row SpellsSign [sign] (text ++ []) := .cons (.operator h) .nil
  rwa [List.append_nil] at hrow

namespace Regex

def IsPiece : Regex Atom → Prop
  | .empty => False
  | .seq _ _ => False
  | _ => True

/-- The shape of a tree that can be read: a sequence has a first piece and a rest. -/
def IsTidy : Regex Atom → Prop
  | .empty => True
  | .atom a => a.IsReadable
  | .textStart => True
  | .textEnd => True
  | .seq first second => first.IsPiece ∧ first.IsTidy ∧ second.IsTidy ∧ second ≠ .empty
  | .alt left right => left.IsTidy ∧ right.IsTidy
  | .star body => body.IsTidy
  | .plus body => body.IsTidy
  | .opt body => body.IsTidy

/-- The signs of a tidy expression, which are those of a piece if it is one. -/
def Signs (r : Regex Atom) (signs : List Sign) : Prop :=
  Row SpellsSign signs r.source ∧ Parses .sequence signs (r.map Atom.leaf) ∧
    (r.IsPiece → Parses .piece signs (r.map Atom.leaf)) ∧ (r ≠ .empty → signs ≠ [])

theorem row_group {text : Text} {signs : List Sign} (h : Row SpellsSign signs text) :
    Row SpellsSign (.opening :: signs ++ [.closing]) (group text) := by
  have hopen : Row SpellsSign [.opening] ['(', '?', ':'] := row_operator (by decide)
  have hclose : Row SpellsSign [.closing] [')'] := row_operator (by decide)
  exact (hopen.append h).append hclose

theorem exists_operand {body : Regex Atom} (h : body.IsTidy) {signs : List Sign}
    (hsigns : body.Signs signs) : ∃ signs', Row SpellsSign signs' (operand body.source body) ∧
      Parses .operand signs' (body.map Atom.leaf) := by
  cases body with
  | atom a =>
    have hrow : Row SpellsSign [.leaf a.leaf] (a.source ++ []) := .cons (Atom.spells_source h) .nil
    rw [List.append_nil] at hrow
    exact ⟨_, hrow, .leaf a.leaf⟩
  | _ => exact ⟨_, row_group hsigns.1, .group (.line hsigns.2.1)⟩

theorem signs_of_piece {r : Regex Atom} {signs : List Sign} (hrow : Row SpellsSign signs r.source)
    (hpiece : Parses .piece signs (r.map Atom.leaf)) (hne : signs ≠ []) : r.Signs signs :=
  ⟨hrow, .single hpiece, fun _ => hpiece, fun _ => hne⟩

theorem exists_signs {r : Regex Atom} (h : r.IsTidy) : ∃ signs, r.Signs signs := by
  have hstar : Row SpellsSign [.star] ['*'] := row_operator (by decide)
  have hplus : Row SpellsSign [.plus] ['+'] := row_operator (by decide)
  have hopt : Row SpellsSign [.opt] ['?'] := row_operator (by decide)
  have hbar : Row SpellsSign [.bar] ['|'] := row_operator (by decide)
  induction r with
  | empty => exact ⟨[], .nil, .nothing, False.elim, fun h => absurd rfl h⟩
  | atom a =>
    have hrow : Row SpellsSign [.leaf a.leaf] (a.source ++ []) := .cons (Atom.spells_source h) .nil
    rw [List.append_nil] at hrow
    exact ⟨_, signs_of_piece hrow (.once (.leaf a.leaf)) (List.cons_ne_nil _ _)⟩
  | textStart =>
    exact ⟨_, signs_of_piece (row_operator (by decide)) .textStart (List.cons_ne_nil _ _)⟩
  | textEnd =>
    exact ⟨_, signs_of_piece (row_operator (by decide)) .textEnd (List.cons_ne_nil _ _)⟩
  | seq first second ih ih' =>
    obtain ⟨hpiece, hfirst, hsecond, hne⟩ := h
    obtain ⟨signs, hrow, -, hparses, hsigns⟩ := ih hfirst
    obtain ⟨signs', hrow', hparses', -, hsigns'⟩ := ih' hsecond
    exact ⟨signs ++ signs', hrow.append hrow', .more (hparses hpiece) hparses' (hsigns' hne),
      False.elim, fun _ => by simp [hsigns' hne]⟩
  | alt left right ih ih' =>
    obtain ⟨signs, hrow, hparses, -⟩ := ih h.1
    obtain ⟨signs', hrow', hparses', -⟩ := ih' h.2
    have hchoice : Row SpellsSign (signs ++ .bar :: signs') (left.source ++ '|' :: right.source) :=
      hrow.append (hbar.append hrow')
    exact ⟨_, signs_of_piece (row_group hchoice) (.once (.group (.either hparses (.line hparses'))))
      (List.cons_ne_nil _ _)⟩
  | star body ih =>
    obtain ⟨signs, hsigns⟩ := ih h
    obtain ⟨signs', hrow, hoperand⟩ := exists_operand (show body.IsTidy from h) hsigns
    exact ⟨_, signs_of_piece (hrow.append hstar) (.star hoperand) (by simp)⟩
  | plus body ih =>
    obtain ⟨signs, hsigns⟩ := ih h
    obtain ⟨signs', hrow, hoperand⟩ := exists_operand (show body.IsTidy from h) hsigns
    exact ⟨_, signs_of_piece (hrow.append hplus) (.plus hoperand) (by simp)⟩
  | opt body ih =>
    obtain ⟨signs, hsigns⟩ := ih h
    obtain ⟨signs', hrow, hoperand⟩ := exists_operand (show body.IsTidy from h) hsigns
    exact ⟨_, signs_of_piece (hrow.append hopt) (.opt hoperand) (by simp)⟩

/-- The source text of a tidy expression is read as the expression and as nothing else. -/
theorem reads_source_iff {r : Regex Atom} (h : r.IsTidy) (tree : Regex Leaf) :
    Reads r.source tree ↔ tree = r.map Atom.leaf := by
  obtain ⟨signs, hrow, hparses, -⟩ := exists_signs h
  have hreads : Reads r.source (r.map Atom.leaf) := ⟨signs, hrow, .line hparses⟩
  constructor
  · intro hother
    exact reads_unique hother hreads
  · rintro rfl
    exact hreads

end Regex

end IgnoreRules
