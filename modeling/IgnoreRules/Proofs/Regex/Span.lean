import IgnoreRules.Regex.Basic
import IgnoreRules.Text.Basic

/-! # Spans of a text

What an expression matches is said without positions: it relates the consumed text to the text
before and behind it, which the anchors look at. Searching means to cut the whole text in three.
-/

namespace IgnoreRules

/-- What may be consumed between the text before it and the text behind it. -/
abbrev Span := Text → Text → Text → Prop

namespace Span

def nothing : Span := fun _ middle _ => middle = []

def one (p : Char → Prop) : Span := fun _ middle _ => ∃ c, middle = [c] ∧ p c

def atStart : Span := fun before middle _ => middle = [] ∧ before = []

def atEnd : Span := fun _ middle after => middle = [] ∧ after = []

def seq (first second : Span) : Span := fun before middle after =>
  ∃ front back, middle = front ++ back ∧ first before front (back ++ after) ∧
    second (before ++ front) back after

def alt (left right : Span) : Span := fun before middle after =>
  left before middle after ∨ right before middle after

inductive Repeats (s : Span) : Span
  | stop (before after : Text) : Repeats s before [] after
  | more {before front back after : Text} (h : s before front (back ++ after))
      (rest : Repeats s (before ++ front) back after) : Repeats s before (front ++ back) after

def all : List Span → Span
  | [] => nothing
  | s :: ss => seq s (all ss)

def Finds (s : Span) (text : Text) : Prop :=
  ∃ before middle after, text = before ++ middle ++ after ∧ s before middle after

/-- The span asks nothing but the given language of what it consumes. -/
def IsFree (s : Span) (language : Text → Prop) : Prop :=
  ∀ before middle after, s before middle after ↔ language middle

theorem seq_congr {first first' second second' : Span}
    (h : ∀ before middle after, first before middle after ↔ first' before middle after)
    (h' : ∀ before middle after, second before middle after ↔ second' before middle after)
    (before middle after : Text) :
    seq first second before middle after ↔ seq first' second' before middle after := by
  simp only [seq, h, h']

theorem nothing_seq (s : Span) (before middle after : Text) :
    seq nothing s before middle after ↔ s before middle after := by
  constructor
  · rintro ⟨front, back, rfl, rfl, h⟩
    simpa using h
  · intro h
    exact ⟨[], middle, rfl, rfl, by simpa using h⟩

theorem seq_nothing (s : Span) (before middle after : Text) :
    seq s nothing before middle after ↔ s before middle after := by
  constructor
  · rintro ⟨front, back, rfl, h, rfl⟩
    simpa using h
  · intro h
    exact ⟨middle, [], (List.append_nil _).symm, h, rfl⟩

theorem seq_assoc (first second third : Span) (before middle after : Text) :
    seq (seq first second) third before middle after ↔
      seq first (seq second third) before middle after := by
  constructor
  · rintro ⟨front, back, rfl, ⟨one, two, rfl, h, h'⟩, h''⟩
    refine ⟨one, two ++ back, by simp, by simpa using h, two, back, rfl, h', ?_⟩
    simpa using h''
  · rintro ⟨one, tail, rfl, h, two, back, rfl, h', h''⟩
    refine ⟨one ++ two, back, by simp, ⟨one, two, rfl, by simpa using h, h'⟩, ?_⟩
    simpa using h''

theorem all_append (first second : List Span) (before middle after : Text) :
    all (first ++ second) before middle after ↔
      seq (all first) (all second) before middle after := by
  induction first generalizing before middle after with
  | nil => exact (nothing_seq _ _ _ _).symm
  | cons s first ih =>
    rw [List.cons_append, all, seq_congr (fun _ _ _ => Iff.rfl) ih, ← seq_assoc]
    rfl

theorem all_singleton (s : Span) (before middle after : Text) :
    all [s] before middle after ↔ s before middle after := seq_nothing s before middle after

namespace IsFree

theorem nothing : IsFree nothing fun text => text = [] := fun _ _ _ => Iff.rfl

theorem one (p : Char → Prop) : IsFree (one p) fun text => ∃ c, text = [c] ∧ p c :=
  fun _ _ _ => Iff.rfl

theorem seq {s s' : Span} {language language' : Text → Prop} (h : IsFree s language)
    (h' : IsFree s' language') : IsFree (seq s s') fun text =>
      ∃ front back, text = front ++ back ∧ language front ∧ language' back := by
  intro before middle after
  simp only [Span.seq, h _ _ _, h' _ _ _]

theorem repeats {s : Span} {language : Text → Prop} (h : IsFree s language) :
    IsFree (Repeats s) fun text =>
      ∃ parts : List Text, text = parts.flatten ∧ ∀ part ∈ parts, language part := by
  intro before middle after
  constructor
  · intro hr
    induction hr with
    | stop before after => exact ⟨[], rfl, by simp⟩
    | more hs _ ih =>
      obtain ⟨parts, rfl, hparts⟩ := ih
      exact ⟨_ :: parts, rfl, List.forall_mem_cons.mpr ⟨(h _ _ _).mp hs, hparts⟩⟩
  · rintro ⟨parts, rfl, hparts⟩
    induction parts generalizing before with
    | nil => exact .stop before after
    | cons part parts ih =>
      obtain ⟨hpart, hparts⟩ := List.forall_mem_cons.mp hparts
      exact .more ((h _ _ _).mpr hpart) (ih _ hparts)

theorem congr {s : Span} {language language' : Text → Prop} (h : IsFree s language)
    (hl : ∀ text, language text ↔ language' text) : IsFree s language' :=
  fun before middle after => (h before middle after).trans (hl middle)

theorem all_singleton {s : Span} {language : Text → Prop} (h : IsFree s language) :
    IsFree (all [s]) language :=
  fun before middle after => (Span.all_singleton s before middle after).trans (h before middle after)

theorem all_append {first second : List Span} {language language' : Text → Prop}
    (h : IsFree (all first) language) (h' : IsFree (all second) language') :
    IsFree (all (first ++ second)) fun text =>
      ∃ front back, text = front ++ back ∧ language front ∧ language' back :=
  fun before middle after =>
    (Span.all_append first second before middle after).trans (h.seq h' before middle after)

theorem repeats_one (p : Char → Prop) :
    IsFree (Repeats (Span.one p)) fun text => ∀ c ∈ text, p c := by
  refine (one p).repeats.congr fun text => ?_
  constructor
  · rintro ⟨parts, rfl, hparts⟩ c hc
    obtain ⟨part, hpart, hc⟩ := List.mem_flatten.mp hc
    obtain ⟨d, rfl, hd⟩ := hparts part hpart
    exact List.mem_singleton.mp hc ▸ hd
  · intro h
    refine ⟨text.map fun c => [c], (List.flatMap_singleton' text).symm, ?_⟩
    intro part hpart
    obtain ⟨c, hc, rfl⟩ := List.mem_map.mp hpart
    exact ⟨c, rfl, h c hc⟩

theorem plus_one (p : Char → Prop) :
    IsFree (Span.seq (Span.one p) (Repeats (Span.one p))) fun text =>
      text ≠ [] ∧ ∀ c ∈ text, p c := by
  refine ((one p).seq (repeats_one p)).congr fun text => ?_
  constructor
  · rintro ⟨_, back, rfl, ⟨c, rfl, hc⟩, hback⟩
    exact ⟨by simp, List.forall_mem_cons.mpr ⟨hc, hback⟩⟩
  · rintro ⟨hne, h⟩
    obtain ⟨c, back, rfl⟩ := List.exists_cons_of_ne_nil hne
    obtain ⟨hc, hback⟩ := List.forall_mem_cons.mp h
    exact ⟨[c], back, rfl, ⟨c, rfl, hc⟩, hback⟩

end IsFree

end Span

namespace Regex

variable {α β : Type}

def map (f : α → β) : Regex α → Regex β
  | .empty => .empty
  | .atom a => .atom (f a)
  | .textStart => .textStart
  | .textEnd => .textEnd
  | .seq first second => .seq (first.map f) (second.map f)
  | .alt left right => .alt (left.map f) (right.map f)
  | .star body => .star (body.map f)
  | .plus body => .plus (body.map f)
  | .opt body => .opt (body.map f)

def span (test : α → Char → Prop) : Regex α → Span
  | .empty => .nothing
  | .atom a => .one (test a)
  | .textStart => .atStart
  | .textEnd => .atEnd
  | .seq first second => .seq (first.span test) (second.span test)
  | .alt left right => .alt (left.span test) (right.span test)
  | .star body => .Repeats (body.span test)
  | .plus body => .seq (body.span test) (.Repeats (body.span test))
  | .opt body => .alt .nothing (body.span test)

theorem span_map (f : α → β) (test : β → Char → Prop) (r : Regex α) :
    (r.map f).span test = r.span fun a => test (f a) := by
  induction r with
  | empty | atom a | textStart | textEnd => rfl
  | seq _ _ ih ih' | alt _ _ ih ih' => simp only [map, span, ih, ih']
  | star _ ih | plus _ ih | opt _ ih => simp only [map, span, ih]

theorem span_concat (test : α → Char → Prop) (rs : List (Regex α)) (before middle after : Text) :
    (concat rs).span test before middle after ↔
      Span.all (rs.map (·.span test)) before middle after := by
  fun_induction concat rs generalizing before middle after with
  | case1 => exact Iff.rfl
  | case2 r => exact (Span.all_singleton _ _ _ _).symm
  | case3 r rs _ ih => exact Span.seq_congr (fun _ _ _ => Iff.rfl) ih before middle after

end Regex

end IgnoreRules
