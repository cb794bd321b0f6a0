import IgnoreRules.Proofs.Regex.Grammar
import IgnoreRules.Proofs.Text.Pieces

/-! # A source text is read in one way

Signs are told apart by how they begin, so a text has at most one row of signs. What the signs say
is found again by a run from left to right that keeps one frame for each open group.
-/

namespace IgnoreRules

theorem notMem_of_hexNumberFrom? {digits : Text} {value n : Nat}
    (h : hexNumberFrom? value digits = some n) : '}' ∉ digits := by
  induction digits generalizing value with
  | nil => simp
  | cons c digits ih =>
    rw [hexNumberFrom?] at h
    obtain ⟨digit, hdigit, hrest⟩ := Option.bind_eq_some_iff.mp h
    refine List.not_mem_cons_of_ne_of_not_mem ?_ (ih hrest)
    rintro rfl
    have hnone : hexValue? '}' = none := by decide
    exact absurd (hnone.symm.trans hdigit) (Option.some_ne_none digit).symm

section

variable {reserved : List Char} {text text' rest rest' : Text}

theorem Spells.exists_cons {c : Char} (h : Spells reserved c text) :
    ∃ d tail, text = d :: tail ∧ (d = '\\' ∨ d ∉ reserved) := by
  cases h with
  | plain h => exact ⟨c, [], rfl, Or.inr h⟩
  | escaped h => exact ⟨'\\', [c], rfl, Or.inl rfl⟩
  | code hne h => exact ⟨'\\', _, rfl, Or.inl rfl⟩

theorem Spells.unique (hreserved : '\\' ∈ reserved) {c c' : Char} (h : Spells reserved c text)
    (h' : Spells reserved c' text') (heq : text ++ rest = text' ++ rest') :
    c = c' ∧ rest = rest' := by
  have hx : 'x' ∉ operatorChars := by decide
  cases h with
  | plain h =>
    cases h' with
    | plain h' => simpa using heq
    | escaped h' | code hne' h' =>
      obtain ⟨rfl, -⟩ := List.cons.inj heq
      exact absurd hreserved h
  | escaped h =>
    cases h' with
    | plain h' =>
      obtain ⟨rfl, -⟩ := List.cons.inj heq
      exact absurd hreserved h'
    | escaped h' => simpa using heq
    | code hne' h' =>
      obtain ⟨rfl, -⟩ := List.cons.inj (List.cons.inj heq).2
      exact absurd h hx
  | code hne h =>
    cases h' with
    | plain h' =>
      obtain ⟨rfl, -⟩ := List.cons.inj heq
      exact absurd hreserved h'
    | escaped h' =>
      obtain ⟨rfl, -⟩ := List.cons.inj (List.cons.inj heq).2
      exact absurd h' hx
    | code hne' h' =>
      simp only [List.cons_append, List.nil_append, List.append_assoc, List.cons.injEq,
        true_and] at heq
      obtain ⟨rfl, hrest⟩ := (append_cons_inj (notMem_of_hexNumberFrom? h)
        (notMem_of_hexNumberFrom? h')).mp heq
      exact ⟨Char.toNat_inj.mp (Option.some.inj (h.symm.trans h')), hrest⟩

/-- A member begins with no operator of a class. -/
theorem SpellsMember.exists_cons {m : ClassMember} (h : SpellsMember m text) :
    ∃ d tail, text = d :: tail ∧ d ∉ [']', '^', '-', '&'] := by
  have hplain : ∀ d, d = '\\' ∨ d ∉ reservedInside → d ∉ [']', '^', '-', '&'] := by
    rintro d (rfl | hd)
    · decide
    · intro hmem
      apply hd
      simp only [List.mem_cons, List.not_mem_nil, or_false] at hmem
      rcases hmem with rfl | rfl | rfl | rfl <;> decide
  cases h with
  | char h =>
    obtain ⟨d, tail, rfl, hd⟩ := h.exists_cons
    exact ⟨d, tail, rfl, hplain d hd⟩
  | range hlo hhi hle =>
    obtain ⟨d, tail, rfl, hd⟩ := hlo.exists_cons
    exact ⟨d, _, rfl, hplain d hd⟩

theorem SpellsMember.unique {m m' : ClassMember} (h : SpellsMember m text)
    (h' : SpellsMember m' text') (hrest : rest.head? ≠ some '-') (hrest' : rest'.head? ≠ some '-')
    (heq : text ++ rest = text' ++ rest') : m = m' ∧ rest = rest' := by
  have hinside : '\\' ∈ reservedInside := by decide
  cases h with
  | char h =>
    cases h' with
    | char h' =>
      obtain ⟨rfl, hrests⟩ := h.unique hinside h' heq
      exact ⟨rfl, hrests⟩
    | range hlo' hhi' hle' =>
      rw [List.append_assoc, List.cons_append] at heq
      obtain ⟨-, rfl⟩ := h.unique hinside hlo' heq
      exact absurd rfl hrest
  | range hlo hhi hle =>
    rw [List.append_assoc, List.cons_append] at heq
    cases h' with
    | char h' =>
      obtain ⟨-, rfl⟩ := hlo.unique hinside h' heq
      exact absurd rfl hrest'
    | range hlo' hhi' hle' =>
      rw [List.append_assoc, List.cons_append] at heq
      obtain ⟨rfl, hback⟩ := hlo.unique hinside hlo' heq
      obtain ⟨rfl, hrests⟩ := hhi.unique hinside hhi' (List.cons.inj hback).2
      exact ⟨rfl, hrests⟩

def EndsMembers (rest : Text) : Prop := ∃ d tail, rest = d :: tail ∧ (d = ']' ∨ d = '&')

theorem head?_members {members : List ClassMember} (h : Row SpellsMember members text)
    (hrest : EndsMembers rest) : (text ++ rest).head? ≠ some '-' := by
  cases h with
  | nil =>
    obtain ⟨d, tail, rfl, rfl | rfl⟩ := hrest <;> simp
  | cons h _ =>
    obtain ⟨d, tail, rfl, hd⟩ := h.exists_cons
    intro heq
    obtain rfl := Option.some.inj heq
    exact absurd hd (by decide)

theorem members_unique {members members' : List ClassMember} (h : Row SpellsMember members text)
    (h' : Row SpellsMember members' text') (hrest : EndsMembers rest) (hrest' : EndsMembers rest')
    (heq : text ++ rest = text' ++ rest') : members = members' ∧ rest = rest' := by
  -- A member cannot begin where the members of the other text end.
  have hends : ∀ {m : ClassMember} {t back back' : Text}, SpellsMember m t → EndsMembers back →
      t ++ back' ≠ back := by
    rintro m t _ back' hm ⟨d, tail, rfl, hd⟩ heq
    obtain ⟨e, tail', rfl, he⟩ := hm.exists_cons
    obtain ⟨rfl, -⟩ := List.cons.inj heq
    rcases hd with rfl | rfl <;> exact absurd he (by decide)
  induction h generalizing members' text' with
  | nil =>
    cases h' with
    | nil => exact ⟨rfl, heq⟩
    | cons hm _ =>
      rw [List.append_assoc] at heq
      exact absurd heq.symm (hends hm hrest)
  | cons hm hms ih =>
    cases h' with
    | nil =>
      rw [List.append_assoc] at heq
      exact absurd heq (hends hm hrest')
    | cons hm' hms' =>
      rw [List.append_assoc, List.append_assoc] at heq
      obtain ⟨rfl, hback⟩ :=
        hm.unique hm' (head?_members hms hrest) (head?_members hms' hrest') heq
      obtain ⟨rfl, hrests⟩ := ih hms' hback
      exact ⟨rfl, hrests⟩

theorem bracketStart_unique {negated negated' : Bool} {members members' : List ClassMember}
    (h : Row SpellsMember members text) (hne : members ≠ [])
    (h' : Row SpellsMember members' text') (hne' : members' ≠ [])
    (hrest : EndsMembers rest) (hrest' : EndsMembers rest')
    (heq : bracketStart negated ++ (text ++ rest) = bracketStart negated' ++ (text' ++ rest')) :
    negated = negated' ∧ members = members' ∧ rest = rest' := by
  have hcaret : ∀ {ms : List ClassMember} {t back : Text}, Row SpellsMember ms t → ms ≠ [] →
      (t ++ back).head? ≠ some '^' := by
    intro ms t back hms hms_ne heq
    cases hms with
    | nil => exact hms_ne rfl
    | cons hm _ =>
      obtain ⟨d, tail, rfl, hd⟩ := hm.exists_cons
      obtain rfl := Option.some.inj heq
      exact absurd hd (by decide)
  have htail := (List.cons.inj heq).2
  cases negated with
  | true =>
    cases negated' with
    | true =>
      obtain ⟨rfl, hrests⟩ := members_unique h h' hrest hrest' (List.cons.inj htail).2
      exact ⟨rfl, rfl, hrests⟩
    | false =>
      have hhead : (text' ++ rest').head? = some '^' := (congrArg List.head? htail).symm
      exact absurd hhead (hcaret h' hne')
  | false =>
    cases negated' with
    | true =>
      have hhead : (text ++ rest).head? = some '^' := congrArg List.head? htail
      exact absurd hhead (hcaret h hne)
    | false =>
      obtain ⟨rfl, hrests⟩ := members_unique h h' hrest hrest' htail
      exact ⟨rfl, rfl, hrests⟩

theorem SpellsBracket.unique {b b' : Bracket} (h : SpellsBracket b text)
    (h' : SpellsBracket b' text') (heq : text ++ rest = text' ++ rest') : b = b' ∧ rest = rest' := by
  have hclose : ∀ back : Text, EndsMembers (']' :: back) := fun back => ⟨_, _, rfl, Or.inl rfl⟩
  have hmeet : ∀ back : Text, EndsMembers ('&' :: back) := fun back => ⟨_, _, rfl, Or.inr rfl⟩
  induction h generalizing b' text' rest rest' with
  | union hms hne =>
    cases h' with
    | union hms' hne' =>
      simp only [List.append_assoc, List.cons_append, List.nil_append] at heq
      obtain ⟨rfl, rfl, hrests⟩ :=
        bracketStart_unique hms hne hms' hne' (hclose _) (hclose _) heq
      exact ⟨rfl, (List.cons.inj hrests).2⟩
    | meet hms' hne' hother' =>
      simp only [List.append_assoc, List.cons_append, List.nil_append] at heq
      obtain ⟨-, -, hrests⟩ := bracketStart_unique hms hne hms' hne' (hclose _) (hmeet _) heq
      exact absurd (List.cons.inj hrests).1 (by decide)
  | meet hms hne hother ih =>
    cases h' with
    | union hms' hne' =>
      simp only [List.append_assoc, List.cons_append, List.nil_append] at heq
      obtain ⟨-, -, hrests⟩ := bracketStart_unique hms hne hms' hne' (hmeet _) (hclose _) heq
      exact absurd (List.cons.inj hrests).1 (by decide)
    | meet hms' hne' hother' =>
      simp only [List.append_assoc, List.cons_append, List.nil_append] at heq
      obtain ⟨rfl, rfl, hrests⟩ :=
        bracketStart_unique hms hne hms' hne' (hmeet _) (hmeet _) heq
      obtain ⟨rfl, hback⟩ := ih hother' (List.cons.inj (List.cons.inj hrests).2).2
      exact ⟨rfl, (List.cons.inj hback).2⟩

theorem SpellsBracket.exists_cons {b : Bracket} (h : SpellsBracket b text) :
    ∃ tail, text = '[' :: tail := by
  cases h with
  | union => exact ⟨_, rfl⟩
  | meet => exact ⟨_, rfl⟩

/-- Operators are told apart by their first character, which stands for nothing else. -/
theorem exists_cons_of_mem_signTable {sign : Sign} (h : (sign, text) ∈ signTable) :
    ∃ d tail, text = d :: tail ∧ d ∈ reservedOutside ∧ d ≠ '\\' ∧ d ≠ '[' := by
  have hall : ∀ entry ∈ signTable, entry.2.headD '\\' ∈ reservedOutside ∧
      entry.2.headD '\\' ≠ '\\' ∧ entry.2.headD '\\' ≠ '[' := by
    decide
  have hhead := hall _ h
  cases text with
  | nil => exact absurd rfl hhead.2.1
  | cons d tail => exact ⟨d, tail, rfl, hhead⟩

theorem signTable_unique {sign sign' : Sign} (h : (sign, text) ∈ signTable)
    (h' : (sign', text') ∈ signTable) (heq : text ++ rest = text' ++ rest') :
    sign = sign' ∧ rest = rest' := by
  have hall : ∀ entry ∈ signTable, ∀ entry' ∈ signTable,
      entry.2.head? = entry'.2.head? → entry = entry' := by
    decide
  obtain ⟨d, tail, rfl, -⟩ := exists_cons_of_mem_signTable h
  obtain ⟨d', tail', rfl, -⟩ := exists_cons_of_mem_signTable h'
  obtain ⟨rfl, -⟩ := List.cons.inj heq
  obtain ⟨rfl, htail⟩ := Prod.mk.inj (hall _ h _ h' rfl)
  obtain rfl := (List.cons.inj htail).2
  exact ⟨rfl, List.append_cancel_left heq⟩

theorem SpellsSign.unique {sign sign' : Sign} (h : SpellsSign sign text)
    (h' : SpellsSign sign' text') (heq : text ++ rest = text' ++ rest') :
    sign = sign' ∧ rest = rest' := by
  have hbracket : ∀ {c : Char} {t t' back back' : Text} {b : Bracket},
      Spells reservedOutside c t → SpellsBracket b t' → t ++ back ≠ t' ++ back' := by
    intro c t t' back back' b hc hb heq
    obtain ⟨d, tail, rfl, hd⟩ := hc.exists_cons
    obtain ⟨tail', rfl⟩ := hb.exists_cons
    obtain ⟨rfl, -⟩ := List.cons.inj heq
    rcases hd with hd | hd <;> exact absurd hd (by decide)
  have hoperator : ∀ {c : Char} {t t' back back' : Text} {s : Sign},
      Spells reservedOutside c t → (s, t') ∈ signTable → t ++ back ≠ t' ++ back' := by
    intro c t t' back back' s hc hs heq
    obtain ⟨d, tail, rfl, hd⟩ := hc.exists_cons
    obtain ⟨d', tail', rfl, hreserved, hslash, -⟩ := exists_cons_of_mem_signTable hs
    obtain ⟨rfl, -⟩ := List.cons.inj heq
    rcases hd with hd | hd
    · exact hslash hd
    · exact hd hreserved
  have hboth : ∀ {t t' back back' : Text} {b : Bracket} {s : Sign},
      SpellsBracket b t → (s, t') ∈ signTable → t ++ back ≠ t' ++ back' := by
    intro t t' back back' b s hb hs heq
    obtain ⟨tail, rfl⟩ := hb.exists_cons
    obtain ⟨d', tail', rfl, -, -, hopen⟩ := exists_cons_of_mem_signTable hs
    exact hopen (List.cons.inj heq).1.symm
  cases h with
  | literal h =>
    cases h' with
    | literal h' =>
      obtain ⟨rfl, hrests⟩ := h.unique (by decide) h' heq
      exact ⟨rfl, hrests⟩
    | bracket h' => exact absurd heq (hbracket h h')
    | operator h' => exact absurd heq (hoperator h h')
  | bracket h =>
    cases h' with
    | literal h' => exact absurd heq.symm (hbracket h' h)
    | bracket h' =>
      obtain ⟨rfl, hrests⟩ := h.unique h' heq
      exact ⟨rfl, hrests⟩
    | operator h' => exact absurd heq (hboth h h')
  | operator h =>
    cases h' with
    | literal h' => exact absurd heq.symm (hoperator h' h)
    | bracket h' => exact absurd heq.symm (hboth h' h)
    | operator h' => exact signTable_unique h h' heq

theorem SpellsSign.ne_nil {sign : Sign} (h : SpellsSign sign text) : text ≠ [] := by
  cases h with
  | literal h =>
    obtain ⟨d, tail, rfl, -⟩ := h.exists_cons
    exact List.cons_ne_nil d tail
  | bracket h =>
    obtain ⟨tail, rfl⟩ := h.exists_cons
    exact List.cons_ne_nil _ tail
  | operator h =>
    obtain ⟨d, tail, rfl, -⟩ := exists_cons_of_mem_signTable h
    exact List.cons_ne_nil d tail

theorem signs_unique {signs signs' : List Sign} (h : Row SpellsSign signs text)
    (h' : Row SpellsSign signs' text) : signs = signs' := by
  induction h generalizing signs' with
  | nil =>
    generalize htext : ([] : Text) = text at h'
    cases h' with
    | nil => rfl
    | cons hs _ => exact absurd (List.append_eq_nil_iff.mp htext.symm).1 hs.ne_nil
  | cons hs hrow ih =>
    rename_i text rest
    generalize htext : text ++ rest = whole at h'
    cases h' with
    | nil => exact absurd (List.append_eq_nil_iff.mp htext).1 hs.ne_nil
    | cons hs' hrow' =>
      obtain ⟨rfl, rfl⟩ := hs.unique hs' htext
      rw [ih hrow']

end

/-- A group that is still open: its complete sequences and the pieces of the last one, the latest
first. -/
structure Frame where
  done : List (Regex Leaf)
  pieces : List (Regex Leaf)

namespace Frame

def push (r : Regex Leaf) (frame : Frame) : Frame := ⟨frame.done, r :: frame.pieces⟩

def line (frame : Frame) : Regex Leaf := .concat frame.pieces.reverse

def result (frame : Frame) : Regex Leaf := frame.done.foldl (fun r left => .alt left r) frame.line

end Frame

def Sign.step : Sign → List Frame → Option (List Frame)
  | .leaf a, frame :: frames => some (frame.push (.atom a) :: frames)
  | .textStart, frame :: frames => some (frame.push .textStart :: frames)
  | .textEnd, frame :: frames => some (frame.push .textEnd :: frames)
  | .star, ⟨done, r :: pieces⟩ :: frames => some (⟨done, .star r :: pieces⟩ :: frames)
  | .plus, ⟨done, r :: pieces⟩ :: frames => some (⟨done, .plus r :: pieces⟩ :: frames)
  | .opt, ⟨done, r :: pieces⟩ :: frames => some (⟨done, .opt r :: pieces⟩ :: frames)
  | .bar, frame :: frames => some (⟨frame.line :: frame.done, []⟩ :: frames)
  | .opening, frames => some (⟨[], []⟩ :: frames)
  | .closing, inner :: frame :: frames => some (frame.push inner.result :: frames)
  | _, _ => none

def runSigns : List Sign → List Frame → Option (List Frame)
  | [], frames => some frames
  | sign :: signs, frames => (sign.step frames).bind (runSigns signs)

theorem runSigns_append {signs signs' : List Sign} {frames frames' : List Frame}
    (h : runSigns signs frames = some frames') :
    runSigns (signs ++ signs') frames = runSigns signs' frames' := by
  induction signs generalizing frames with
  | nil =>
    obtain rfl := Option.some.inj h
    rfl
  | cons sign signs ih =>
    obtain ⟨next, hstep, hrun⟩ := Option.bind_eq_some_iff.mp h
    rw [List.cons_append, runSigns, hstep, Option.bind_some, ih hrun]

/-- What a run makes of the signs of each level: an operand or a piece is one piece more, a
sequence a row of pieces, and a choice completes the frame. -/
def Level.Runs : Level → List Sign → Regex Leaf → Prop
  | .operand, signs, r | .piece, signs, r =>
    ∀ frame frames, runSigns signs (frame :: frames) = some (frame.push r :: frames)
  | .sequence, signs, r =>
    ∃ rs, r = .concat rs ∧ (signs ≠ [] → rs ≠ []) ∧ ∀ frame frames,
      runSigns signs (frame :: frames) = some (⟨frame.done, rs.reverse ++ frame.pieces⟩ :: frames)
  | .choice, signs, r =>
    ∀ done frames, ∃ frame, runSigns signs (⟨done, []⟩ :: frames) = some (frame :: frames) ∧
      frame.result = done.foldl (fun r left => .alt left r) r

theorem runs_of_parses {level : Level} {signs : List Sign} {r : Regex Leaf}
    (h : Parses level signs r) : level.Runs signs r := by
  induction h with
  | leaf a => exact fun _ _ => rfl
  | textStart => exact fun _ _ => rfl
  | textEnd => exact fun _ _ => rfl
  | once h ih => exact ih
  | group h ih =>
    rename_i signs r
    intro frame frames
    obtain ⟨inner, hrun, hresult⟩ := ih [] (frame :: frames)
    have hopen : runSigns (.opening :: signs) (frame :: frames) = some (inner :: frame :: frames) :=
      hrun
    rw [runSigns_append hopen, ← show inner.result = r from hresult]
    rfl
  | star h ih | plus h ih | opt h ih =>
    intro frame frames
    rw [runSigns_append (ih frame frames)]
    rfl
  | nothing => exact ⟨[], rfl, fun h => absurd rfl h, fun _ _ => rfl⟩
  | single h ih => exact ⟨[_], rfl, fun _ => List.cons_ne_nil _ _, ih⟩
  | more h h' hne ih ih' =>
    rename_i signs signs' r r'
    obtain ⟨rs, rfl, hrs, hrun⟩ := ih'
    refine ⟨r :: rs, ?_, fun _ => List.cons_ne_nil r rs, ?_⟩
    · cases rs with
      | nil => exact absurd rfl (hrs hne)
      | cons _ _ => rfl
    · intro frame frames
      rw [runSigns_append (ih frame frames), hrun]
      simp [Frame.push]
  | line h ih =>
    obtain ⟨rs, rfl, -, hrun⟩ := ih
    intro done frames
    refine ⟨_, hrun ⟨done, []⟩ frames, ?_⟩
    simp [Frame.result, Frame.line]
  | either h h' ih ih' =>
    obtain ⟨rs, rfl, -, hrun⟩ := ih
    intro done frames
    obtain ⟨frame, hrest, hresult⟩ := ih' (.concat rs :: done) frames
    refine ⟨frame, ?_, hresult⟩
    rw [runSigns_append (hrun ⟨done, []⟩ frames), ← hrest]
    simp [runSigns, Sign.step, Frame.line]

theorem parses_unique {signs : List Sign} {r r' : Regex Leaf} (h : Parses .choice signs r)
    (h' : Parses .choice signs r') : r = r' := by
  obtain ⟨frame, hrun, hresult⟩ := runs_of_parses h [] []
  obtain ⟨frame', hrun', hresult'⟩ := runs_of_parses h' [] []
  obtain rfl : frame = frame' := by simpa using hrun.symm.trans hrun'
  exact hresult.symm.trans hresult'

/-- No text is read as two trees. -/
theorem reads_unique {text : Text} {tree tree' : Regex Leaf} (h : Reads text tree)
    (h' : Reads text tree') : tree = tree' := by
  obtain ⟨signs, hrow, hparses⟩ := h
  obtain ⟨signs', hrow', hparses'⟩ := h'
  obtain rfl := signs_unique hrow hrow'
  exact parses_unique hparses hparses'

end IgnoreRules
