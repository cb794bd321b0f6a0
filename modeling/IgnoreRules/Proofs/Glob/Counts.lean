import IgnoreRules.Proofs.Glob.Slices

/-! # Reading by counts

A body can also be read by a loop that is told how many characters each lexeme takes, and goes on so
many characters later. The count for a class is found by an index that runs through its items. No
count is ever larger than what is left of the body, so the loop gives the same lexemes.
-/

namespace IgnoreRules

def Text.after? (text : Text) (count : Nat) : Option Text :=
  if count ≤ text.length then some (text.drop count) else none

theorem Text.length_le_of_after? {text rest : Text} {count : Nat}
    (h : text.after? count = some rest) :
    rest.length ≤ text.length := by
  unfold after? at h
  split at h
  · cases h
    exact List.length_drop ▸ Nat.sub_le _ _
  · cases h

theorem Text.after?_append (front back : Text) :
    (front ++ back).after? front.length = some back := by
  rw [after?, if_pos (by simp), List.drop_left]

namespace ClassScan

/-- Reads the items of a class from an index on, behind those that are read already. The class comes
with the number of characters behind its bracket that it takes. -/
def readItems (input : Text) (negated : Bool) (index : Nat) (items : List ClassItem) :
    Option (CharClass × Nat) :=
  if _h : index < input.length then
    match input[index] with
    | ']' => some (⟨negated, ClassItem.members items⟩, index + 1)
    | '/' => none
    | '\\' =>
      match input[index + 1]? with
      | none => some (.none, input.length)
      | some '/' => none
      | some c => readItems input negated (index + 2) (items ++ [⟨c, true⟩])
    | c => readItems input negated (index + 1) (items ++ [⟨c, false⟩])
  else some (.none, input.length)
termination_by input.length - index

def readCounted? (input : Text) : Option (CharClass × Nat) :=
  if input.head? = some '!' ∨ input.head? = some '^' then readItems input true 1 []
  else readItems input false 0 []

theorem readCounted?_eq {negated : Bool} {mark behind : Text}
    (h : CharClass.Mark negated mark behind) :
    readCounted? (mark ++ behind) = readItems (mark ++ behind) negated mark.length [] := by
  cases h with
  | bang | caret => rfl
  | none hbang hcaret =>
    rw [List.nil_append, readCounted?, if_neg (by simp [hbang, hcaret])]
    rfl

variable {negated : Bool} {front back : Text} {items : List ClassItem}

theorem readItems_written (negated : Bool) (front back : Text) (items : List ClassItem)
    {item : ClassItem} (h : item.IsWritable) :
    readItems (front ++ (item.written ++ back)) negated front.length items =
      readItems (front ++ (item.written ++ back)) negated (front ++ item.written).length
        (items ++ [item]) := by
  obtain ⟨c, escaped⟩ := item
  cases escaped with
  | true =>
    have hslash : c ≠ '/' := h.1
    have hpair : front ++ ((⟨c, true⟩ : ClassItem).written ++ back) = front ++ '\\' :: c :: back :=
      rfl
    have hwritten : (front ++ (⟨c, true⟩ : ClassItem).written).length = front.length + 2 := by
      simp [ClassItem.written]
    have hnext : (front ++ '\\' :: c :: back)[front.length + 1]? = some c := by simp
    rw [hpair, hwritten, readItems, dif_pos (by simp)]
    simp only [List.getElem_append_right (Nat.le_refl _), Nat.sub_self, List.getElem_cons_zero,
      hnext]
  | false =>
    obtain ⟨hclose, hescape⟩ := h.2 rfl
    have hslash : c ≠ '/' := h.1
    have hone : front ++ ((⟨c, false⟩ : ClassItem).written ++ back) = front ++ c :: back := rfl
    have hwritten : (front ++ (⟨c, false⟩ : ClassItem).written).length = front.length + 1 := by
      simp [ClassItem.written]
    rw [hone, hwritten, readItems, dif_pos (by simp)]
    simp only [List.getElem_append_right (Nat.le_refl _), Nat.sub_self, List.getElem_cons_zero]

theorem readItems_writeAll (more : List ClassItem) (h : ∀ item ∈ more, item.IsWritable) :
    readItems (front ++ (ClassItem.writeAll more ++ back)) negated front.length items =
      readItems (front ++ (ClassItem.writeAll more ++ back)) negated
        (front ++ ClassItem.writeAll more).length (items ++ more) := by
  induction more generalizing front items with
  | nil => simp [ClassItem.writeAll]
  | cons item more ih =>
    obtain ⟨hitem, hmore⟩ := List.forall_mem_cons.mp h
    have hstep := readItems_written negated front (ClassItem.writeAll more ++ back) items hitem
    have hrest := @ih (front ++ item.written) (items ++ [item]) hmore
    simp only [ClassItem.writeAll_cons, List.append_assoc, List.singleton_append] at hstep hrest ⊢
    rw [hstep, hrest]

/-- At the end of the items the count is known: it is what stands before the end, with the bracket
that closes the class, or all that is left. -/
theorem readItems_of_ends {scan : ClassScan} (h : Ends back scan) :
    readItems (front ++ back) negated front.length items =
      match scan with
      | .closed _ _ => some (⟨negated, ClassItem.members items⟩, front.length + 1)
      | .unterminated => some (.none, (front ++ back).length)
      | .interrupted => none := by
  cases h with
  | nothing => rw [List.append_nil, readItems, dif_neg (Nat.lt_irrefl _)]
  | escape =>
    rw [readItems, dif_pos (by simp)]
    simp
  | bracket after | slash after | escapedSlash after =>
    rw [readItems, dif_pos (by simp)]
    simp

theorem readCounted?_of_ends {mark : Text} {more : List ClassItem} {scan : ClassScan}
    (hmark : CharClass.Mark negated mark (ClassItem.writeAll more ++ back))
    (hmore : ∀ item ∈ more, item.IsWritable) (h : Ends back scan) :
    readCounted? (mark ++ (ClassItem.writeAll more ++ back)) =
      match scan with
      | .closed _ _ =>
        some (⟨negated, ClassItem.members more⟩, (mark ++ ClassItem.writeAll more).length + 1)
      | .unterminated => some (.none, (mark ++ (ClassItem.writeAll more ++ back)).length)
      | .interrupted => none := by
  rw [readCounted?_eq hmark, readItems_writeAll more hmore, ← List.append_assoc,
    readItems_of_ends h, List.nil_append]

/-- A class takes no more characters than are left. -/
theorem count_le_of_readCounted? {input : Text} {cls : CharClass} {count : Nat}
    (h : readCounted? input = some (cls, count)) : count ≤ input.length := by
  obtain ⟨negated, mark, behind, rfl, hmark⟩ := CharClass.exists_mark input
  obtain ⟨items, back, scan, rfl, hitems, hends⟩ := exists_ends behind
  rw [readCounted?_of_ends hmark hitems hends] at h
  cases hends with
  | slash | escapedSlash => cases h
  | nothing | escape =>
    cases h
    exact Nat.le_refl _
  | bracket after =>
    cases h
    simp only [List.length_append, List.length_cons]
    omega

end ClassScan

namespace Lexeme

/-- Reads a body by counts, or nothing if a count is larger than what is left. -/
def ofBodyByCounts? : Text → Option (List Lexeme)
  | [] => some []
  | '\\' :: [] => some [.token (.literal '\\')]
  | '\\' :: '/' :: rest => (ofBodyByCounts? rest).map (.slash :: ·)
  | '\\' :: c :: rest => (ofBodyByCounts? rest).map (.token (.literal c) :: ·)
  | '/' :: rest => (ofBodyByCounts? rest).map (.slash :: ·)
  | '*' :: rest =>
    let more := (rest.takeWhile (· = '*')).length
    match _h : Text.after? rest more with
    | none => none
    | some after => (ofBodyByCounts? after).map (.stars (more + 1) :: ·)
  | '?' :: rest => (ofBodyByCounts? rest).map (.token .anyChar :: ·)
  | '[' :: rest =>
    match ClassScan.readCounted? rest with
    | none => (ofBodyByCounts? rest).map (.token (.literal '[') :: ·)
    | some (cls, count) =>
      match _h : Text.after? rest count with
      | none => none
      | some after => (ofBodyByCounts? after).map (.token (.charClass cls) :: ·)
  | c :: rest => (ofBodyByCounts? rest).map (.token (.literal c) :: ·)
termination_by body => body.length
decreasing_by
  any_goals (simp only [List.length_cons]; omega)
  all_goals
    have shorter := Text.length_le_of_after? _h
    simp only [List.length_cons]
    omega

variable {lexeme : Lexeme} {slice after : Text}

theorem length_takeWhile_starRun (count : Nat) (hlast : after.head? ≠ some '*') :
    ((List.replicate count '*' ++ after).takeWhile (· = '*')).length = count := by
  have hstop : after.takeWhile (· = '*') = [] := by
    cases after with
    | nil => rfl
    | cons c after => exact List.takeWhile_cons_of_neg (by simpa using hlast)
  rw [List.takeWhile_append_of_pos (by simp), hstop, List.append_nil, List.length_replicate]

theorem ofBodyByCounts?_star (rest : Text) : ofBodyByCounts? ('*' :: rest) =
    (Text.after? rest (rest.takeWhile (· = '*')).length).bind fun after =>
      (ofBodyByCounts? after).map (.stars ((rest.takeWhile (· = '*')).length + 1) :: ·) := by
  rw [ofBodyByCounts?]
  split <;> rename_i hafter <;> rw [hafter] <;> rfl

theorem ofBodyByCounts?_bracket (rest : Text) : ofBodyByCounts? ('[' :: rest) =
    match ClassScan.readCounted? rest with
    | none => (ofBodyByCounts? rest).map (.token (.literal '[') :: ·)
    | some (cls, count) => (Text.after? rest count).bind fun after =>
        (ofBodyByCounts? after).map (.token (.charClass cls) :: ·) := by
  rw [ofBodyByCounts?]
  cases ClassScan.readCounted? rest with
  | none => rfl
  | some read =>
    simp only
    split <;> rename_i hafter <;> rw [hafter] <;> rfl

/-- The count for a slice leads to what stands behind it. -/
theorem ofBodyByCounts?_of_spells (h : Spells lexeme slice after) :
    ofBodyByCounts? (slice ++ after) = (ofBodyByCounts? after).map (lexeme :: ·) := by
  cases h with
  | slash | escapedSlash | anyChar => simp only [List.cons_append, List.nil_append, ofBodyByCounts?]
  | @stars count _ hcount hlast =>
    obtain ⟨fewer, rfl⟩ := Nat.exists_eq_add_one.mpr hcount
    have hafter := Text.after?_append (List.replicate fewer '*') after
    rw [List.length_replicate] at hafter
    rw [List.replicate_succ, List.cons_append, ofBodyByCounts?_star,
      length_takeWhile_starRun fewer hlast, hafter]
    rfl
  | @plain c after hc =>
    simp only [List.mem_cons, List.not_mem_nil, or_false, not_or] at hc
    obtain ⟨hescape, hslash, hstar, hany, hbracket⟩ := hc
    rw [List.singleton_append, ofBodyByCounts?]
    · exact fun h => absurd h hescape
    · exact fun _ h => absurd h hescape
    · exact fun _ _ h => absurd h hescape
    · exact hslash
    · exact hstar
    · exact hany
    · exact hbracket
  | escaped after hc =>
    rw [List.cons_append, List.singleton_append, ofBodyByCounts?]
    exact hc
  | lastEscape => rw [List.append_nil, ofBodyByCounts?, ofBodyByCounts?]; rfl
  | bracket hmark hitems hends =>
    rw [List.singleton_append, ofBodyByCounts?_bracket,
      ClassScan.readCounted?_of_ends hmark hitems hends]
  | @closedClass negated mark _ items hmark hitems =>
    have hcount : (mark ++ (ClassItem.writeAll items ++ [']'])).length =
        (mark ++ ClassItem.writeAll items).length + 1 := by
      simp [Nat.add_assoc]
    have hafter := Text.after?_append (mark ++ (ClassItem.writeAll items ++ [']'])) after
    have hbody : mark ++ (ClassItem.writeAll items ++ [']']) ++ after =
        mark ++ (ClassItem.writeAll items ++ ']' :: after) := by
      simp
    rw [hbody, hcount] at hafter
    rw [List.cons_append, hbody, ofBodyByCounts?_bracket,
      ClassScan.readCounted?_of_ends hmark hitems (.bracket after)]
    simp only [hafter, Option.bind_some]
  | @openClass negated mark back items hmark hitems hends =>
    have hafter := Text.after?_append (mark ++ (ClassItem.writeAll items ++ back)) []
    rw [List.append_nil] at hafter
    rw [List.append_nil, ofBodyByCounts?_bracket,
      ClassScan.readCounted?_of_ends hmark hitems hends]
    simp only [hafter, Option.bind_some]

theorem SpelledBy.ofBodyByCounts?_flatten {lexemes : List Lexeme} {slices : List Text}
    (h : SpelledBy lexemes slices) : ofBodyByCounts? slices.flatten = some lexemes := by
  induction h with
  | nil => rw [List.flatten_nil, ofBodyByCounts?]
  | cons first _ ih =>
    rw [List.flatten_cons, ofBodyByCounts?_of_spells first, ih, Option.map_some]

/-- A body is divided into slices that are not empty, one for each lexeme and in their order, so
that each slice spells its lexeme, and no other lexemes are spelled by any slices of the body. The
slice of a class holds no separator and is closed unless it reaches to the end. A body is read the
same by counts: the count for a class is never larger than what is left, so all of the body is
read. -/
theorem divided_into_slices (body : Text) :
    (∃ slices, slices.flatten = body ∧ (∀ slice ∈ slices, slice ≠ []) ∧
        SpelledBy (ofBody body) slices) ∧
      (∀ lexemes slices, SpelledBy lexemes slices → slices.flatten = body →
        lexemes = ofBody body) ∧
      (∀ cls slice after, Spells (.token (.charClass cls)) slice after → '/' ∉ slice ∧
        ∃ inner, slice = '[' :: inner ∧ (inner.getLast? = some ']' ∨ after = [])) ∧
      (∀ input cls count, ClassScan.readCounted? input = some (cls, count) →
        count ≤ input.length) ∧
      ofBodyByCounts? body = some (ofBody body) := by
  obtain ⟨slices, hbody, hspelled⟩ := exists_spelledBy body
  refine ⟨⟨slices, hbody, hspelled.ne_nil, hspelled⟩, ?_, fun _ _ _ => Spells.of_charClass,
    fun _ _ _ => ClassScan.count_le_of_readCounted?, ?_⟩
  · intro lexemes others hothers hsame
    rw [← hsame, hothers.ofBody_flatten]
  · rw [← hbody, hspelled.ofBodyByCounts?_flatten, hspelled.ofBody_flatten]

/-- A class, a run of stars, an escaped separator and a class that is left open. -/
theorem divided_into_slices_left_open :
    let body : Text := ['[', '!', 'a', ']', '*', '*', '\\', '/', '[', 'b']
    let lexemes := [token (.charClass ⟨true, [.char 'a']⟩), stars 2, slash,
      token (.charClass .none)]
    ofBody body = lexemes ∧ ofBodyByCounts? body = some lexemes ∧
      ClassScan.readCounted? ['!', 'a', ']', '*'] = some (⟨true, [.char 'a']⟩, 3) ∧
      3 ≤ ['!', 'a', ']', '*'].length ∧ '/' ∉ ['[', 'b'] := by
  obtain ⟨-, hunique, hclass, hcount, hread⟩ :=
    divided_into_slices ['[', '!', 'a', ']', '*', '*', '\\', '/', '[', 'b']
  have hlisted : ∀ c : Char, c = 'a' ∨ c = 'b' → ∀ item ∈ [(⟨c, false⟩ : ClassItem)],
      item.IsWritable := by
    simp [ClassItem.IsWritable]
  have hopen : Spells (token (.charClass .none)) ['[', 'b'] [] :=
    .openClass (.none (by decide) (by decide)) (hlisted 'b' (Or.inr rfl)) .nothing
  have hspelled : SpelledBy [token (.charClass ⟨true, [.char 'a']⟩), stars 2, slash,
      token (.charClass .none)] [['[', '!', 'a', ']'], ['*', '*'], ['\\', '/'], ['[', 'b']] :=
    .cons (.closedClass (.bang _) (hlisted 'a' (Or.inl rfl)))
      (.cons (.stars (by decide) (by decide)) (.cons (.escapedSlash _) (.cons hopen .nil)))
  have hbody := (hunique _ _ hspelled rfl).symm
  have hclosed : ClassScan.readCounted? ['!', 'a', ']', '*'] = some (⟨true, [.char 'a']⟩, 3) :=
    ClassScan.readCounted?_of_ends (.bang _) (hlisted 'a' (Or.inl rfl)) (.bracket ['*'])
  exact ⟨hbody, hbody ▸ hread, hclosed, hcount _ _ _ hclosed, (hclass _ _ _ hopen).1⟩

end Lexeme

end IgnoreRules
