import IgnoreRules.Proofs.Glob.Boundaries

/-! # The slices of a body

A body is cut into slices, one for each of its lexemes, and every slice is a way to write its
lexeme. What a slice may look like depends on what stands behind it: a run of stars takes all of
them, and a bracket is a class only if it is closed before a separator comes.
-/

namespace IgnoreRules

/-! ## What stands in brackets -/

namespace ClassItem

def written (item : ClassItem) : Text := if item.escaped then ['\\', item.char] else [item.char]

/-- The item can be written: a separator never stands in a class, and what would end the class or
begin an escape stands there only behind a backslash. -/
def IsWritable (item : ClassItem) : Prop :=
  item.char ≠ '/' ∧ (item.escaped = false → item.char ≠ ']' ∧ item.char ≠ '\\')

def writeAll (items : List ClassItem) : Text := items.flatMap written

theorem writeAll_cons (item : ClassItem) (items : List ClassItem) :
    writeAll (item :: items) = item.written ++ writeAll items := List.flatMap_cons

theorem slash_notMem_writeAll {items : List ClassItem} (h : ∀ item ∈ items, item.IsWritable) :
    '/' ∉ writeAll items := by
  intro hslash
  obtain ⟨item, hitem, hmem⟩ := List.mem_flatMap.mp hslash
  unfold written at hmem
  split at hmem <;> simp [(h item hitem).1.symm] at hmem

end ClassItem

namespace ClassScan

/-- What begins with no item of a class, and how a scan ends there. -/
inductive Ends : Text → ClassScan → Prop
  | bracket (after : Text) : Ends (']' :: after) (.closed [] after)
  | slash (after : Text) : Ends ('/' :: after) .interrupted
  | escapedSlash (after : Text) : Ends ('\\' :: '/' :: after) .interrupted
  | nothing : Ends [] .unterminated
  /-- A backslash that has nothing to escape. -/
  | escape : Ends ['\\'] .unterminated

theorem ofText_written {item : ClassItem} (h : item.IsWritable) (text : Text) :
    ofText (item.written ++ text) = (ofText text).push item := by
  obtain ⟨c, escaped⟩ := item
  cases escaped with
  | true => exact ofText_escaped h.1 text
  | false => exact ofText_cons (h.2 rfl).1 h.1 (h.2 rfl).2 text

theorem ofText_of_ends {items : List ClassItem} {back : Text} {scan : ClassScan}
    (h : ∀ item ∈ items, item.IsWritable) (hends : Ends back scan) :
    ofText (ClassItem.writeAll items ++ back) = items.foldr push scan := by
  induction items with
  | nil => cases hends <;> rfl
  | cons item items ih =>
    obtain ⟨hitem, hitems⟩ := List.forall_mem_cons.mp h
    rw [ClassItem.writeAll_cons, List.append_assoc, ofText_written hitem, ih hitems,
      List.foldr_cons]

theorem foldr_push_closed (items : List ClassItem) (after : Text) :
    items.foldr push (.closed [] after) = .closed items after := by
  induction items with
  | nil => rfl
  | cons item items ih => rw [List.foldr_cons, ih, push]

/-- Items before the end of a body or before a separator are not kept. -/
theorem foldr_push_of_open {scan : ClassScan} (h : scan = .unterminated ∨ scan = .interrupted)
    (items : List ClassItem) : items.foldr push scan = scan := by
  have hfixed : ∀ item, scan.push item = scan := by
    intro item
    rcases h with rfl | rfl <;> rfl
  exact List.foldr_fixed' hfixed items

/-- Any text is made of items up to where its scan ends. -/
theorem exists_ends (text : Text) : ∃ items back scan, text = ClassItem.writeAll items ++ back ∧
    (∀ item ∈ items, item.IsWritable) ∧ Ends back scan := by
  fun_induction ofText text with
  | case1 => exact ⟨[], [], _, rfl, by simp, .nothing⟩
  | case2 after => exact ⟨[], _, _, rfl, by simp, .bracket after⟩
  | case3 after => exact ⟨[], _, _, rfl, by simp, .slash after⟩
  | case4 => exact ⟨[], _, _, rfl, by simp, .escape⟩
  | case5 after => exact ⟨[], _, _, rfl, by simp, .escapedSlash after⟩
  | case6 c rest hslash ih =>
    obtain ⟨items, back, scan, rfl, hitems, hends⟩ := ih
    have hitem : (⟨c, true⟩ : ClassItem).IsWritable := ⟨hslash, fun h => by cases h⟩
    exact ⟨⟨c, true⟩ :: items, back, scan, rfl, List.forall_mem_cons.mpr ⟨hitem, hitems⟩, hends⟩
  | case7 c rest hclose hslash hlone _ hpair ih =>
    obtain ⟨items, back, scan, rfl, hitems, hends⟩ := ih
    have hitem : (⟨c, false⟩ : ClassItem).IsWritable :=
      ⟨hslash, fun _ => ⟨hclose, ne_escape_of_forall hlone hpair⟩⟩
    exact ⟨⟨c, false⟩ :: items, back, scan, rfl, List.forall_mem_cons.mpr ⟨hitem, hitems⟩, hends⟩

end ClassScan

namespace CharClass

inductive Mark : Bool → Text → Text → Prop
  | bang (behind : Text) : Mark true ['!'] behind
  | caret (behind : Text) : Mark true ['^'] behind
  | none {behind : Text} (hbang : behind.head? ≠ some '!') (hcaret : behind.head? ≠ some '^') :
    Mark false [] behind

theorem Mark.splitNegation_eq {negated : Bool} {mark behind : Text} (h : Mark negated mark behind) :
    splitNegation (mark ++ behind) = (negated, behind) := by
  cases h with
  | bang | caret => rfl
  | none hbang hcaret =>
    rw [List.nil_append]
    cases behind with
    | nil => rfl
    | cons c behind =>
      rw [splitNegation]
      · exact fun _ heq => hbang (by rw [(List.cons.inj heq).1]; rfl)
      · exact fun _ heq => hcaret (by rw [(List.cons.inj heq).1]; rfl)

theorem exists_mark (text : Text) :
    ∃ negated mark behind, text = mark ++ behind ∧ Mark negated mark behind := by
  fun_cases splitNegation text with
  | case1 behind => exact ⟨true, ['!'], behind, rfl, .bang behind⟩
  | case2 behind => exact ⟨true, ['^'], behind, rfl, .caret behind⟩
  | case3 _ hbang hcaret =>
    refine ⟨false, [], text, rfl, .none ?_ ?_⟩
    · intro hhead
      obtain ⟨behind, hbehind⟩ := List.head?_eq_some_iff.mp hhead
      exact hbang behind hbehind
    · intro hhead
      obtain ⟨behind, hbehind⟩ := List.head?_eq_some_iff.mp hhead
      exact hcaret behind hbehind

theorem Mark.slash_notMem {negated : Bool} {mark behind : Text} (h : Mark negated mark behind) :
    '/' ∉ mark := by
  cases h <;> decide

end CharClass

/-! ## How a lexeme is written -/

namespace Lexeme

/-- The slice is a way to write the lexeme where the text `after` stands behind it. -/
inductive Spells : Lexeme → Text → Text → Prop
  | slash (after : Text) : Spells .slash ['/'] after
  | escapedSlash (after : Text) : Spells .slash ['\\', '/'] after
  /-- A run of stars goes on as long as there are stars. -/
  | stars {count : Nat} {after : Text} (hcount : 0 < count) (hlast : after.head? ≠ some '*') :
    Spells (.stars count) (List.replicate count '*') after
  | anyChar (after : Text) : Spells (.token .anyChar) ['?'] after
  | plain {c : Char} (after : Text) (hc : c ∉ ['\\', '/', '*', '?', '[']) :
    Spells (.token (.literal c)) [c] after
  | escaped {c : Char} (after : Text) (hc : c ≠ '/') :
    Spells (.token (.literal c)) ['\\', c] after
  /-- A backslash at the end of the body has nothing to escape. -/
  | lastEscape : Spells (.token (.literal '\\')) ['\\'] []
  /-- A bracket stands for itself if a separator comes before it is closed. -/
  | bracket {negated : Bool} {mark back : Text} {items : List ClassItem}
    (hmark : CharClass.Mark negated mark (ClassItem.writeAll items ++ back))
    (hitems : ∀ item ∈ items, item.IsWritable) (hends : ClassScan.Ends back .interrupted) :
    Spells (.token (.literal '[')) ['['] (mark ++ (ClassItem.writeAll items ++ back))
  | closedClass {negated : Bool} {mark after : Text} {items : List ClassItem}
    (hmark : CharClass.Mark negated mark (ClassItem.writeAll items ++ ']' :: after))
    (hitems : ∀ item ∈ items, item.IsWritable) :
    Spells (.token (.charClass ⟨negated, ClassItem.members items⟩))
      ('[' :: (mark ++ (ClassItem.writeAll items ++ [']']))) after
  /-- A bracket that is still open at the end of the body takes the rest of it. -/
  | openClass {negated : Bool} {mark back : Text} {items : List ClassItem}
    (hmark : CharClass.Mark negated mark (ClassItem.writeAll items ++ back))
    (hitems : ∀ item ∈ items, item.IsWritable) (hends : ClassScan.Ends back .unterminated) :
    Spells (.token (.charClass .none)) ('[' :: (mark ++ (ClassItem.writeAll items ++ back))) []

variable {body after slice : Text} {lexeme : Lexeme}

theorem Spells.slice_ne_nil (h : Spells lexeme slice after) : slice ≠ [] := by
  cases h with
  | stars hcount _ => simp [Nat.ne_of_gt hcount]
  | _ => simp

/-- The slice of a class holds no separator. It is closed, or it reaches to the end of the body. -/
theorem Spells.of_charClass {cls : CharClass} (h : Spells (.token (.charClass cls)) slice after) :
    '/' ∉ slice ∧
      ∃ inner, slice = '[' :: inner ∧ (inner.getLast? = some ']' ∨ after = []) := by
  cases h with
  | closedClass hmark hitems =>
    have hslash := ClassItem.slash_notMem_writeAll hitems
    exact ⟨by simp [hmark.slash_notMem, hslash], _, rfl, Or.inl (by simp)⟩
  | openClass hmark hitems hends =>
    have hslash := ClassItem.slash_notMem_writeAll hitems
    refine ⟨?_, _, rfl, Or.inr rfl⟩
    cases hends <;> simp [hmark.slash_notMem, hslash]

/-! ## Each slice is read as its lexeme -/

theorem ofBody_ne_stars (h : body.head? ≠ some '*') (count : Nat) (lexemes : List Lexeme) :
    ofBody body ≠ .stars count :: lexemes := by
  fun_cases ofBody body with
  | case6 rest => exact absurd rfl h
  | _ => simp

theorem ofBody_starRun (count : Nat) (hlast : after.head? ≠ some '*') :
    ofBody (List.replicate (count + 1) '*' ++ after) = .stars (count + 1) :: ofBody after := by
  induction count with
  | zero =>
    rw [List.replicate_one, List.singleton_append, ofBody, pushStar]
    exact ofBody_ne_stars hlast
  | succ count ih => rw [List.replicate_succ, List.cons_append, ofBody, ih, pushStar]

theorem ofBody_of_spells (h : Spells lexeme slice after) :
    ofBody (slice ++ after) = lexeme :: ofBody after := by
  cases h with
  | slash | escapedSlash | anyChar => simp only [List.cons_append, List.nil_append, ofBody]
  | @stars count _ hcount hlast =>
    obtain ⟨fewer, rfl⟩ := Nat.exists_eq_add_one.mpr hcount
    exact ofBody_starRun fewer hlast
  | plain after hc =>
    simp only [List.mem_cons, List.not_mem_nil, or_false, not_or] at hc
    obtain ⟨hescape, hslash, hstar, hany, hbracket⟩ := hc
    exact ofBody_literal hescape hslash hstar hany hbracket after
  | escaped after hc => exact ofBody_escaped hc after
  | lastEscape => rw [List.append_nil, ofBody, ofBody]
  | bracket hmark hitems hends =>
    have hscan := ClassScan.ofText_of_ends hitems hends
    rw [ClassScan.foldr_push_of_open (Or.inr rfl)] at hscan
    rw [List.singleton_append, ofBody_bracket, hmark.splitNegation_eq]
    simp only [hscan]
  | @closedClass negated mark _ items hmark hitems =>
    have hscan := ClassScan.ofText_of_ends hitems (.bracket after)
    rw [ClassScan.foldr_push_closed] at hscan
    have hbody : '[' :: (mark ++ (ClassItem.writeAll items ++ [']'])) ++ after =
        '[' :: (mark ++ (ClassItem.writeAll items ++ ']' :: after)) := by
      simp
    rw [hbody, ofBody_bracket, hmark.splitNegation_eq]
    simp only [hscan]
  | openClass hmark hitems hends =>
    have hscan := ClassScan.ofText_of_ends hitems hends
    rw [ClassScan.foldr_push_of_open (Or.inl rfl)] at hscan
    rw [List.append_nil, ofBody_bracket, hmark.splitNegation_eq, ofBody]
    simp only [hscan]

/-! ## Every body begins with a slice -/

theorem exists_starRun (text : Text) :
    ∃ count after, text = List.replicate count '*' ++ after ∧ after.head? ≠ some '*' := by
  induction text with
  | nil => exact ⟨0, [], rfl, by simp⟩
  | cons c text ih =>
    by_cases hc : c = '*'
    · obtain ⟨count, after, rfl, hlast⟩ := ih
      exact ⟨count + 1, after, by rw [hc, List.replicate_succ, List.cons_append], hlast⟩
    · exact ⟨0, c :: text, rfl, by simpa using hc⟩

theorem exists_spells_bracket (text : Text) :
    ∃ lexeme slice after, '[' :: text = slice ++ after ∧ Spells lexeme slice after := by
  obtain ⟨negated, mark, behind, rfl, hmark⟩ := CharClass.exists_mark text
  obtain ⟨items, back, scan, rfl, hitems, hends⟩ := ClassScan.exists_ends behind
  cases hends with
  | bracket after => exact ⟨_, _, after, by simp, .closedClass hmark hitems⟩
  | slash rest => exact ⟨_, _, _, rfl, .bracket hmark hitems (.slash rest)⟩
  | escapedSlash rest => exact ⟨_, _, _, rfl, .bracket hmark hitems (.escapedSlash rest)⟩
  | nothing => exact ⟨_, _, [], by simp, .openClass hmark hitems .nothing⟩
  | escape => exact ⟨_, _, [], by simp, .openClass hmark hitems .escape⟩

theorem exists_spells (h : body ≠ []) :
    ∃ lexeme slice after, body = slice ++ after ∧ Spells lexeme slice after := by
  fun_cases ofBody body with
  | case1 => exact absurd rfl h
  | case2 => exact ⟨_, _, _, rfl, .lastEscape⟩
  | case3 rest => exact ⟨_, _, rest, rfl, .escapedSlash rest⟩
  | case4 c rest hslash => exact ⟨_, _, rest, rfl, .escaped rest hslash⟩
  | case5 rest => exact ⟨_, _, rest, rfl, .slash rest⟩
  | case6 rest =>
    obtain ⟨count, after, rfl, hlast⟩ := exists_starRun rest
    exact ⟨_, _, after, rfl, .stars count.succ_pos hlast⟩
  | case7 rest => exact ⟨_, _, rest, rfl, .anyChar rest⟩
  | case8 rest | case9 rest | case10 rest => exact exists_spells_bracket rest
  | case11 c rest hlone _ hpair hslash hstar hany hbracket =>
    have hescape := ne_escape_of_forall hlone hpair
    have hplain : c ∉ ['\\', '/', '*', '?', '['] := by
      simpa using ⟨hescape, hslash, hstar, hany, hbracket⟩
    exact ⟨_, _, rest, rfl, .plain rest hplain⟩

/-! ## The division of a body -/

/-- The slices spell the lexemes, one each and in order, where they stand one behind the other. -/
inductive SpelledBy : List Lexeme → List Text → Prop
  | nil : SpelledBy [] []
  | cons {lexeme : Lexeme} {lexemes : List Lexeme} {slice : Text} {slices : List Text}
    (first : Spells lexeme slice slices.flatten) (others : SpelledBy lexemes slices) :
    SpelledBy (lexeme :: lexemes) (slice :: slices)

theorem SpelledBy.ne_nil {lexemes : List Lexeme} {slices : List Text}
    (h : SpelledBy lexemes slices) : ∀ slice ∈ slices, slice ≠ [] := by
  induction h with
  | nil => simp
  | cons first _ ih => exact List.forall_mem_cons.mpr ⟨first.slice_ne_nil, ih⟩

theorem SpelledBy.ofBody_flatten {lexemes : List Lexeme} {slices : List Text}
    (h : SpelledBy lexemes slices) : ofBody slices.flatten = lexemes := by
  induction h with
  | nil => rw [List.flatten_nil, ofBody]
  | cons first _ ih => rw [List.flatten_cons, ofBody_of_spells first, ih]

theorem exists_spelledBy (body : Text) :
    ∃ slices, slices.flatten = body ∧ SpelledBy (ofBody body) slices := by
  induction hlength : body.length using Nat.strong_induction_on generalizing body with
  | _ n ih =>
    by_cases hbody : body = []
    · subst hbody
      exact ⟨[], rfl, by rw [ofBody]; exact .nil⟩
    · obtain ⟨lexeme, slice, after, rfl, hfirst⟩ := exists_spells hbody
      have hpos := List.length_pos_iff.mpr hfirst.slice_ne_nil
      rw [List.length_append] at hlength
      obtain ⟨slices, rfl, hothers⟩ := ih after.length (by omega) after rfl
      refine ⟨slice :: slices, rfl, ?_⟩
      rw [ofBody_of_spells hfirst]
      exact .cons hfirst hothers

end Lexeme

end IgnoreRules
