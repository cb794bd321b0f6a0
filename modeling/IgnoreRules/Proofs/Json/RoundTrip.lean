import IgnoreRules.Json.Parser
import IgnoreRules.Json.Printer
import Mathlib.Data.List.TakeDrop

/-! # Reading JSON back

What is written in the compact form is read as the value it was written from: strings with whatever
characters, and numbers that are spelled as numbers.
-/

namespace IgnoreRules.Json

/-! ## Strings -/

theorem hexValue?_digitChar : ∀ d < 16, hexValue? d.digitChar = some d := by decide

/-- The digits behind the escape of a control character are those of its code point. -/
theorem hexNumber?_controlEscape {c : Char} (h : c.toNat < 0x20) :
    hexNumber? ['0', '0', Nat.digitChar (c.toNat / 16), Nat.digitChar (c.toNat % 16)] =
      some c.toNat := by
  have hfirst := hexValue?_digitChar (c.toNat / 16) (by omega)
  have hsecond := hexValue?_digitChar (c.toNat % 16) (by omega)
  have hzero : hexValue? '0' = some 0 := rfl
  simp only [hexNumber?, hexNumberFrom?, hzero, hfirst, hsecond, Option.bind_eq_bind,
    Option.bind_some]
  congr 1
  omega

theorem readString_controlEscape {c : Char} (h : c.toNat < 0x20) (tail : Text) :
    readString (controlEscape c ++ tail) = pushChar c (readString tail) := by
  have hhigh : isHighHalf c.toNat = false := by simp [isHighHalf]; omega
  have hlow : isLowHalf c.toNat = false := by simp [isLowHalf]; omega
  simp [controlEscape, readString, hexNumber?_controlEscape h, hhigh, hlow]

theorem readString_plain {c : Char} (hquote : c ≠ '"') (hescape : c ≠ '\\') (h : 0x20 ≤ c.toNat)
    (tail : Text) : readString (c :: tail) = pushChar c (readString tail) := by
  rw [readString, if_neg (Nat.not_lt.mpr h)]
  all_goals simp_all

theorem readString_letter {letter c : Char} (h : letterEscape? letter = some c) (tail : Text) :
    readString ('\\' :: letter :: tail) = pushChar c (readString tail) := by
  have hletter : letter ≠ 'u' := by
    rintro rfl
    cases h
  simp [readString, hletter, h]

/-- A character is written as an escape with a letter, as its code point or as it is. -/
theorem charForm_cases (c : Char) :
    (∃ letter, charForm c = ['\\', letter] ∧ letterEscape? letter = some c) ∨
      (charForm c = controlEscape c ∧ c.toNat < 0x20) ∨
      (charForm c = [c] ∧ c ≠ '"' ∧ c ≠ '\\' ∧ 0x20 ≤ c.toNat) := by
  by_cases hletter : c ∈ ['"', '\\', '\x08', '\x0C', '\n', '\r', '\t']
  · refine Or.inl ?_
    simp only [List.mem_cons, List.not_mem_nil, or_false] at hletter
    rcases hletter with rfl | rfl | rfl | rfl | rfl | rfl | rfl <;> exact ⟨_, rfl, rfl⟩
  · refine Or.inr ?_
    simp only [List.mem_cons, List.not_mem_nil, or_false, not_or] at hletter
    by_cases hcontrol : c.toNat < 0x20
    · exact Or.inl ⟨by simp [charForm, hletter, hcontrol], hcontrol⟩
    · exact Or.inr ⟨by simp [charForm, hletter, hcontrol], hletter.1, hletter.2.1,
        Nat.le_of_not_lt hcontrol⟩

theorem readString_charForm (c : Char) (tail : Text) :
    readString (charForm c ++ tail) = pushChar c (readString tail) := by
  obtain ⟨letter, hform, hletter⟩ | ⟨hform, hcontrol⟩ | ⟨hform, hquote, hescape, hplain⟩ :=
    charForm_cases c
  · rw [hform, List.cons_append, List.singleton_append, readString_letter hletter]
  · rw [hform, readString_controlEscape hcontrol]
  · rw [hform, List.singleton_append, readString_plain hquote hescape hplain]

theorem readString_flatMap_charForm (body rest : Text) :
    readString (body.flatMap charForm ++ '"' :: rest) = some (body, rest) := by
  induction body with
  | nil => simp [readString]
  | cons c body ih =>
    rw [List.flatMap_cons, List.append_assoc, readString_charForm, ih]
    rfl

theorem readQuoted_quoted (s : String) (rest : Text) :
    readQuoted (quoted s ++ rest) = some (s, rest) := by
  simp [readQuoted, quoted, readString_flatMap_charForm]

/-- A control character is escaped; U+007F and characters beyond ASCII stand for themselves. -/
example : quoted "\x1fé\x7f" = ['"', '\\', 'u', '0', '0', '1', 'f', 'é', '\x7f', '"'] := by decide

/-! ## Numbers -/

/-- What follows a value in a written document: nothing, a comma or a closing bracket. -/
def FollowsValue (rest : Text) : Prop := ∀ c ∈ rest.head?, c = ',' ∨ c = ']' ∨ c = '}'

variable {rest : Text}

theorem spanDigits_append (h : FollowsValue rest) (text : Text) :
    spanDigits (text ++ rest) = ((spanDigits text).1, (spanDigits text).2 ++ rest) := by
  simp only [spanDigits, List.span_eq_takeWhile_dropWhile]
  induction text with
  | nil =>
    cases rest with
    | nil => rfl
    | cons c rest => rcases h c rfl with rfl | rfl | rfl <;> rfl
  | cons c text ih =>
    by_cases hc : c.isDigit
    · simpa [List.takeWhile_cons_of_pos, List.dropWhile_cons_of_pos, hc] using ih
    · simp [List.takeWhile_cons_of_neg, List.dropWhile_cons_of_neg, hc]

theorem readWhole_append (h : FollowsValue rest) {text whole after : Text}
    (hread : readWhole text = some (whole, after)) :
    readWhole (text ++ rest) = some (whole, after ++ rest) := by
  unfold readWhole at hread ⊢
  rw [spanDigits_append h]
  generalize spanDigits text = split at hread ⊢
  obtain ⟨digits, other⟩ := split
  split at hread
  · cases hread
  · cases hread
  · split <;> simp_all

theorem readFraction_append (h : FollowsValue rest) {text fraction after : Text}
    (hread : readFraction text = some (fraction, after)) :
    readFraction (text ++ rest) = some (fraction, after ++ rest) := by
  match text with
  | [] =>
    obtain ⟨rfl, rfl⟩ : fraction = [] ∧ after = [] := by simpa [readFraction, eq_comm] using hread
    cases rest with
    | nil => rfl
    | cons c rest => rcases h c rfl with rfl | rfl | rfl <;> rfl
  | c :: text =>
    by_cases hpoint : c = '.'
    · subst hpoint
      simp only [readFraction, List.cons_append, spanDigits_append h] at hread ⊢
      generalize spanDigits text = split at hread ⊢
      obtain ⟨digits, other⟩ := split
      cases digits <;> simp_all
    · obtain ⟨rfl, rfl⟩ : fraction = [] ∧ after = c :: text := by
        simpa [readFraction, hpoint, eq_comm] using hread
      simp [readFraction, hpoint]

theorem spanSign_append {c : Char} {text : Text} :
    spanSign (c :: text ++ rest) =
      ((spanSign (c :: text)).1, (spanSign (c :: text)).2 ++ rest) := by
  unfold spanSign
  split <;> simp_all

theorem readExponent_append (h : FollowsValue rest) {text exponent after : Text}
    (hread : readExponent text = some (exponent, after)) :
    readExponent (text ++ rest) = some (exponent, after ++ rest) := by
  match text with
  | [] =>
    obtain ⟨rfl, rfl⟩ : exponent = [] ∧ after = [] := by simpa [readExponent, eq_comm] using hread
    cases rest with
    | nil => rfl
    | cons c rest => rcases h c rfl with rfl | rfl | rfl <;> rfl
  | c :: text =>
    by_cases hletter : c = 'e' ∨ c = 'E'
    · simp only [readExponent, List.cons_append, if_pos hletter] at hread ⊢
      cases text with
      | nil => cases hread
      | cons d text =>
        rw [spanSign_append]
        simp only [spanDigits_append h] at hread ⊢
        generalize spanSign (d :: text) = split at hread ⊢
        obtain ⟨sign, text⟩ := split
        simp only at hread ⊢
        generalize spanDigits text = split at hread ⊢
        obtain ⟨digits, other⟩ := split
        cases digits <;> simp_all
    · obtain ⟨rfl, rfl⟩ : exponent = [] ∧ after = c :: text := by
        simpa [readExponent, hletter, eq_comm] using hread
      simp [readExponent, hletter]

def readUnsigned (sign text : Text) : Option (Json × Text) :=
  (readWhole text).bind fun (whole, text) =>
    (readFraction text).bind fun (fraction, text) =>
      (readExponent text).bind fun (exponent, text) =>
        some (.number (String.ofList (sign ++ whole ++ fraction ++ exponent)), text)

theorem readNumber_minus (text : Text) : readNumber ('-' :: text) = readUnsigned ['-'] text := by
  simp [readNumber, readUnsigned]

theorem readNumber_cons {c : Char} (h : c ≠ '-') (text : Text) :
    readNumber (c :: text) = readUnsigned [] (c :: text) := by
  simp [readNumber, readUnsigned, h]

theorem readUnsigned_append (h : FollowsValue rest) {sign text after : Text} {json : Json}
    (hread : readUnsigned sign text = some (json, after)) :
    readUnsigned sign (text ++ rest) = some (json, after ++ rest) := by
  simp only [readUnsigned, Option.bind_eq_some_iff] at hread ⊢
  obtain ⟨_, hwhole, _, hfraction, _, hexponent, heq⟩ := hread
  cases heq
  exact ⟨_, readWhole_append h hwhole, _, readFraction_append h hfraction, _,
    readExponent_append h hexponent, rfl⟩

theorem readNumber_append (h : FollowsValue rest) {text after : Text} {json : Json}
    (hread : readNumber text = some (json, after)) :
    readNumber (text ++ rest) = some (json, after ++ rest) := by
  match text with
  | [] => cases hread
  | c :: text =>
    rw [List.cons_append]
    by_cases hsign : c = '-'
    · subst hsign
      rw [readNumber_minus] at hread ⊢
      exact readUnsigned_append h hread
    · rw [readNumber_cons hsign] at hread ⊢
      exact readUnsigned_append h hread

/-- A number begins with its sign or with a digit. -/
theorem readNumber_head {c : Char} {text : Text} {read : Json × Text}
    (hread : readNumber (c :: text) = some read) : c = '-' ∨ c.isDigit = true := by
  by_cases hsign : c = '-'
  · exact Or.inl hsign
  · refine Or.inr ?_
    by_contra hdigit
    simp [readNumber, hsign, readWhole, spanDigits, List.span_eq_takeWhile_dropWhile, hdigit]
      at hread

/-! ## Values -/

inductive Spelled : Json → Prop
  | null : Spelled .null
  | bool (b : Bool) : Spelled (.bool b)
  | number {s : String} (h : readNumber s.toList = some (.number s, [])) : Spelled (.number s)
  | string (s : String) : Spelled (.string s)
  | array {items : List Json} (h : ∀ item ∈ items, Spelled item) : Spelled (.array items)
  | object {members : List (String × Json)} (h : ∀ member ∈ members, Spelled member.2) :
    Spelled (.object members)

def StartsValue (text : Text) : Prop :=
  ∃ c rest, text = c :: rest ∧ c ∉ [' ', '\n', '\r', '\t', ']', '\x7d']

namespace StartsValue

variable {text : Text}

theorem skipBlanks (h : StartsValue text) : skipBlanks text = text := by
  obtain ⟨c, text, rfl, hc⟩ := h
  simp only [List.mem_cons, List.not_mem_nil, or_false, not_or] at hc
  simp [Json.skipBlanks, hc]

theorem append (h : StartsValue text) (rest : Text) : StartsValue (text ++ rest) := by
  obtain ⟨c, text, rfl, hc⟩ := h
  exact ⟨c, text ++ rest, rfl, hc⟩

theorem joined (h : StartsValue text) (separator : Text) (texts : List Text) :
    StartsValue (joined separator (text :: texts)) := by
  cases texts with
  | nil => exact h
  | cons next texts => exact (h.append _).append _

theorem quoted (s : String) : StartsValue (quoted s) := ⟨_, _, rfl, by decide⟩

end StartsValue

theorem Spelled.startsValue {json : Json} (h : json.Spelled) : StartsValue (compact json) := by
  cases h with
  | null => exact ⟨_, _, rfl, by decide⟩
  | bool b => cases b <;> exact ⟨_, _, rfl, by decide⟩
  | @number s hnumber =>
    rw [compact]
    match hspelling : s.toList with
    | [] => simp [hspelling, readNumber, readWhole, spanDigits, List.span_eq_takeWhile_dropWhile]
        at hnumber
    | c :: text =>
      rw [hspelling] at hnumber
      have hother : ∀ c ∈ [' ', '\n', '\r', '\t', ']', '\x7d'],
          c ≠ '-' ∧ c.isDigit ≠ true := by simp
      exact ⟨c, text, rfl, fun hmem => (readNumber_head hnumber).elim (hother c hmem).1
        (hother c hmem).2⟩
  | string s => exact ⟨_, _, rfl, by decide⟩
  | array hitems => exact ⟨_, _, rfl, by decide⟩
  | object hmembers => exact ⟨_, _, rfl, by decide⟩

/-- The compact form is read as the value, with whatever may follow it. Two steps for each character
are enough: one that reads the value, and one that goes on to the next in the same brackets. -/
def ReadsBack (json : Json) : Prop :=
  ∀ fuel rest, FollowsValue rest → 2 * (compact json).length ≤ fuel →
    readValue fuel (compact json ++ rest) = some (json, rest)

theorem ReadsBack.of_succ {json : Json} (h : json.Spelled)
    (hread : ∀ fuel rest, FollowsValue rest → 2 * (compact json).length ≤ fuel + 1 →
      readValue (fuel + 1) (compact json ++ rest) = some (json, rest)) : ReadsBack json := by
  intro fuel rest hrest hfuel
  obtain ⟨c, text, hcompact, -⟩ := h.startsValue
  obtain ⟨fuel, rfl⟩ := Nat.exists_eq_add_one_of_ne_zero (n := fuel) (by
    rw [hcompact, List.length_cons] at hfuel
    omega)
  exact hread fuel rest hrest hfuel

theorem readItems_joined {items : List Json} (hne : items ≠ [])
    (h : ∀ item ∈ items, ReadsBack item) (fuel : ℕ) (rest : Text)
    (hfuel : 2 * (joined [','] (compactItems items)).length + 1 ≤ fuel) :
    readItems fuel (joined [','] (compactItems items) ++ ']' :: rest) = some (items, rest) := by
  -- What follows an item is the comma before the next one or the closing bracket.
  induction items generalizing fuel with
  | nil => exact absurd rfl hne
  | cons item items ih =>
    obtain ⟨hitem, hitems⟩ := List.forall_mem_cons.mp h
    obtain ⟨fuel, rfl⟩ := Nat.exists_eq_add_one_of_ne_zero (n := fuel) (by omega)
    cases items with
    | nil =>
      simp only [compactItems, joined] at hfuel ⊢
      rw [readItems, hitem fuel _ (by simp [FollowsValue]) (by omega)]
      simp [skipBlanks]
    | cons next items =>
      simp only [compactItems, joined, List.length_append, List.length_cons, List.length_nil]
        at hfuel ih ⊢
      rw [List.append_assoc, List.append_assoc, readItems,
        hitem fuel _ (by simp [FollowsValue]) (by omega)]
      simp [skipBlanks, ih (by simp) hitems fuel (by omega)]

theorem readMembers_joined {members : List (String × Json)} (hne : members ≠ [])
    (h : ∀ member ∈ members, ReadsBack member.2) (fuel : ℕ) (rest : Text)
    (hfuel : 2 * (joined [','] (compactMembers members)).length + 1 ≤ fuel) :
    readMembers fuel (joined [','] (compactMembers members) ++ '\x7d' :: rest) =
      some (members, rest) := by
  induction members generalizing fuel with
  | nil => exact absurd rfl hne
  | cons member members ih =>
    obtain ⟨name, value⟩ := member
    obtain ⟨hvalue, hmembers⟩ := List.forall_mem_cons.mp h
    obtain ⟨fuel, rfl⟩ := Nat.exists_eq_add_one_of_ne_zero (n := fuel) (by omega)
    have hname : ∀ after, readQuoted (skipBlanks (quoted name ++ after)) = some (name, after) := by
      intro after
      rw [((StartsValue.quoted name).append after).skipBlanks, readQuoted_quoted]
    replace hvalue : ReadsBack value := hvalue
    cases members with
    | nil =>
      simp only [compactMembers, joined, List.length_append, List.length_cons] at hfuel ⊢
      have hread := hvalue fuel ('\x7d' :: rest) (by simp [FollowsValue]) (by omega)
      rw [List.append_assoc, readMembers, hname]
      simp [skipBlanks, hread]
    | cons next members =>
      simp only [compactMembers, joined, List.length_append, List.length_cons, List.length_nil]
        at hfuel ih ⊢
      have hread := hvalue fuel
        (',' :: (joined [','] (compactMembers (next :: members)) ++ '\x7d' :: rest))
        (by simp [FollowsValue]) (by omega)
      rw [List.append_assoc, List.append_assoc, List.append_assoc, readMembers, hname]
      simp only [compactMembers] at hread
      simp [skipBlanks, hread, ih (by simp) hmembers fuel (by omega)]

theorem readValue_bracket {text : Text} (h : StartsValue text) (fuel : ℕ) :
    readValue (fuel + 1) ('[' :: text) =
      (readItems fuel text).map fun (items, rest) => (.array items, rest) := by
  have hblanks := h.skipBlanks
  obtain ⟨c, text, rfl, hc⟩ := h
  have hclose : c ≠ ']' := fun heq => hc (by simp [heq])
  have hopen : skipBlanks ('[' :: c :: text) = '[' :: c :: text := rfl
  rw [readValue, hopen]
  simp only [hblanks]
  simp [hclose]

theorem readValue_brace {text : Text} (h : StartsValue text) (fuel : ℕ) :
    readValue (fuel + 1) ('\x7b' :: text) =
      (readMembers fuel text).map fun (members, rest) => (.object members, rest) := by
  have hblanks := h.skipBlanks
  obtain ⟨c, text, rfl, hc⟩ := h
  have hclose : c ≠ '\x7d' := fun heq => hc (by simp [heq])
  have hopen : skipBlanks ('\x7b' :: c :: text) = '\x7b' :: c :: text := rfl
  rw [readValue, hopen]
  simp only [hblanks]
  simp [hclose]

theorem Spelled.readsBack {json : Json} (h : json.Spelled) : ReadsBack json := by
  induction h with
  | null => exact .of_succ .null fun fuel rest _ _ => by simp [compact, readValue, skipBlanks]
  | bool b =>
    refine .of_succ (.bool b) fun fuel rest _ _ => ?_
    cases b <;> simp [compact, readValue, skipBlanks]
  | @number s hnumber =>
    refine .of_succ (.number hnumber) fun fuel rest hrest _ => ?_
    have hread := readNumber_append hrest hnumber
    have hblanks := ((Spelled.number hnumber).startsValue.append rest).skipBlanks
    simp only [compact, List.nil_append] at hblanks hread ⊢
    rw [readValue, hblanks]
    generalize s.toList ++ rest = text at hread ⊢
    -- No other kind of value begins as a number does.
    split
    case h_7 => exact hread
    all_goals exact absurd (readNumber_head hread) (by decide)
  | string s =>
    refine .of_succ (.string s) fun fuel rest _ _ => ?_
    simp [compact, quoted, readValue, skipBlanks, readString_flatMap_charForm, ofText]
  | @array items hitems ih =>
    refine .of_succ (.array hitems) fun fuel rest _ hfuel => ?_
    simp only [compact, List.length_append, List.length_cons, List.length_nil] at hfuel ⊢
    cases items with
    | nil => simp [compactItems, joined, readValue, skipBlanks]
    | cons item items =>
      have hread := readItems_joined (List.cons_ne_nil item items) ih fuel rest (by omega)
      have hstart := (hitems item (by simp)).startsValue.joined [','] (compactItems items)
      rw [← compactItems] at hstart
      rw [List.cons_append, List.cons_append, List.append_assoc, List.singleton_append,
        readValue_bracket (hstart.append _), hread]
      rfl
  | @object members hmembers ih =>
    refine .of_succ (.object hmembers) fun fuel rest _ hfuel => ?_
    simp only [compact, List.length_append, List.length_cons, List.length_nil] at hfuel ⊢
    cases members with
    | nil => simp [compactMembers, joined, readValue, skipBlanks]
    | cons member members =>
      have hread := readMembers_joined (List.cons_ne_nil member members) ih fuel rest (by omega)
      have hstart := ((StartsValue.quoted member.1).append (':' :: compact member.2)).joined [',']
        (compactMembers members)
      rw [← compactMembers] at hstart
      rw [List.cons_append, List.cons_append, List.append_assoc, List.singleton_append,
        readValue_brace (hstart.append _), hread]
      rfl

/-- A value is read back from its compact form. -/
theorem parse?_compact {json : Json} (h : json.Spelled) : parse? (compact json) = some json := by
  have hread := h.readsBack (2 * (compact json).length + 2) [] (by simp [FollowsValue]) (by omega)
  rw [List.append_nil] at hread
  simp [parse?, hread, skipBlanks]

end IgnoreRules.Json
