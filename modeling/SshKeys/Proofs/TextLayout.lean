import Mathlib.Data.List.DropRight
import SshKeys.Text.Blank
import SshKeys.Text.Line
/-!
# Lines of a text

Lines that hold no line end are cut off again where they were joined, and trimmed they lose the
blanks around them. Only empty lines may get lost: a carriage return in front of one and the line
feed that ends it are a single line end.
-/
namespace SshKeys.Text

variable {cs word rest : List Char} {c : Char}

theorem dropWhile_isBlank {cs : List Char} (h : ∀ c ∈ cs, isBlank c = false) :
    cs.dropWhile isBlank = cs := by
  cases cs with
  | nil => rfl
  | cons c cs => rw [List.dropWhile_cons, h c List.mem_cons_self, if_neg Bool.false_ne_true]

theorem trim_eq_self {cs : List Char} (h : ∀ c ∈ cs, isBlank c = false) : trim cs = cs := by
  have hReverse : ∀ c ∈ cs.reverse, isBlank c = false := fun c hc => h c (List.mem_reverse.mp hc)
  rw [trim, trimStart, dropWhile_isBlank h, trimEnd, dropWhile_isBlank hReverse, List.reverse_reverse]

theorem dropWhile_isBlank_of_head {cs : List Char} (h : ∀ c ∈ cs.head?, isBlank c = false) :
    cs.dropWhile isBlank = cs := by
  cases cs with
  | nil => rfl
  | cons c cs => rw [List.dropWhile_cons, h c rfl, if_neg Bool.false_ne_true]

theorem trim_eq_self_of_ends {cs : List Char} (hFirst : ∀ c ∈ cs.head?, isBlank c = false)
    (hLast : ∀ c ∈ cs.getLast?, isBlank c = false) : trim cs = cs := by
  rw [← List.head?_reverse] at hLast
  rw [trim, trimStart, dropWhile_isBlank_of_head hFirst, trimEnd, dropWhile_isBlank_of_head hLast,
    List.reverse_reverse]

theorem trimEnd_append (a b : List Char) :
    trimEnd (a ++ b) = if trimEnd b = [] then trimEnd a else a ++ trimEnd b := by
  simp only [trimEnd, List.reverse_append, List.dropWhile_append, List.isEmpty_iff,
    List.reverse_eq_nil_iff]
  split
  · rfl
  · rw [List.reverse_append, List.reverse_reverse]

theorem trimStart_cons (c : Char) (cs : List Char) :
    trimStart (c :: cs) = if isBlank c then trimStart cs else c :: cs := List.dropWhile_cons

theorem trimEnd_singleton (c : Char) : trimEnd [c] = if isBlank c then [] else [c] := by
  simp only [trimEnd, List.reverse_singleton, List.dropWhile_cons, List.dropWhile_nil]
  split <;> rfl

theorem trimStart_trimEnd (cs : List Char) : trimStart (trimEnd cs) = trimEnd (trimStart cs) := by
  induction cs with
  | nil => rfl
  | cons c cs ih =>
    have hCut := trimEnd_append [c] cs
    rw [List.singleton_append, trimEnd_singleton] at hCut
    rw [trimStart_cons]
    by_cases hBlank : isBlank c = true
    · rw [if_pos hBlank, ← ih, hCut, if_pos hBlank]
      split
      · rename_i hNone
        rw [hNone]
      · rw [List.singleton_append, trimStart_cons, if_pos hBlank]
    · rw [if_neg hBlank, hCut, if_neg hBlank]
      split
      · rw [trimStart_cons, if_neg hBlank]
      · rw [List.singleton_append, trimStart_cons, if_neg hBlank]

theorem trim_trimStart (cs : List Char) : trim (trimStart cs) = trim cs := by
  rw [trim, trim, trimStart, trimStart, List.dropWhile_idempotent]

theorem trim_trimEnd (cs : List Char) : trim (trimEnd cs) = trim cs := by
  rw [trim, trimStart_trimEnd, trim, trimEnd, trimEnd, List.reverse_reverse,
    List.dropWhile_idempotent]

theorem trim_eq_nil_iff : trim cs = [] ↔ trimStart cs = [] := by
  have hAll (ds : List Char) : trimEnd ds = [] ↔ trimStart ds = [] := by
    simp only [trimEnd, trimStart, List.reverse_eq_nil_iff, List.dropWhile_eq_nil_iff,
      List.mem_reverse]
  rw [trim, hAll, trimStart, trimStart, List.dropWhile_idempotent]

theorem head?_trim (h : cs.head? = some c) (hBlank : isBlank c = false) :
    (trim cs).head? = some c := by
  obtain ⟨rest, rfl⟩ := List.head?_eq_some_iff.mp h
  have hOther : ¬isBlank c = true := Bool.eq_false_iff.mp hBlank
  rw [trim, trimStart_cons, if_neg hOther, ← List.singleton_append, trimEnd_append,
    trimEnd_singleton, if_neg hOther]
  split <;> rfl

theorem trim_between {lead trail : List Char} (hLead : ∀ c ∈ lead, isBlank c = true)
    (hTrail : ∀ c ∈ trail, isBlank c = true) (core : List Char) :
    trim (lead ++ (core ++ trail)) = trim core := by
  have hNone : trimEnd trail = [] := by
    rw [trimEnd, List.reverse_eq_nil_iff, List.dropWhile_eq_nil_iff]
    intro c hc
    exact hTrail c (List.mem_reverse.mp hc)
  rw [trim, trimStart, List.dropWhile_append_of_pos hLead]
  change trimEnd (trimStart (core ++ trail)) = _
  rw [← trimStart_trimEnd, trimEnd_append, if_pos hNone, trimStart_trimEnd]
  rfl

theorem linesFrom_front {cs : List Char} (h : ∀ c ∈ cs, isLineEnd c = false) (line : List Char)
    (finished : List (List Char)) (rest : List Char) :
    linesFrom line finished (cs ++ rest) = linesFrom (cs.reverse ++ line) finished rest := by
  induction cs generalizing line with
  | nil => rfl
  | cons c cs ih =>
    rw [List.forall_mem_cons] at h
    rw [List.cons_append, linesFrom]
    · rw [h.1, if_neg Bool.false_ne_true, ih h.2, List.reverse_cons, List.append_assoc]
      rfl
    · rintro _ rfl
      exact absurd h.1 (by decide)

theorem linesFrom_line {cs : List Char} (h : ∀ c ∈ cs, isLineEnd c = false) (line : List Char)
    (finished : List (List Char)) (rest : List Char) :
    linesFrom line finished (cs ++ '\n' :: rest) =
      linesFrom [] ((line.reverse ++ cs) :: finished) rest := by
  rw [linesFrom_front h, linesFrom, if_pos (by decide), List.reverse_append, List.reverse_reverse]
  nofun

theorem linesFrom_unlines {lines : List (List Char)}
    (h : ∀ line ∈ lines, ∀ c ∈ line, isLineEnd c = false) (finished : List (List Char)) :
    linesFrom [] finished (lines.flatMap (· ++ ['\n'])) = finished.reverse ++ lines := by
  induction lines generalizing finished with
  | nil => simp [linesFrom]
  | cons line lines ih =>
    rw [List.forall_mem_cons] at h
    rw [List.flatMap_cons, List.append_assoc, List.singleton_append, linesFrom_line h.1, ih h.2]
    simp

theorem lines_unlines {lines : List (List Char)}
    (h : ∀ line ∈ lines, ∀ c ∈ line, isLineEnd c = false) :
    Text.lines (lines.flatMap (· ++ ['\n'])) = lines := linesFrom_unlines h []

theorem isLineEnd_of_all {cs : List Char} (h : cs.all (!isLineEnd ·) = true) :
    ∀ c ∈ cs, isLineEnd c = false := by
  intro c hc
  have hOther := List.all_eq_true.mp h c hc
  simpa using hOther

theorem linesFrom_append (line : List Char) (finished more : List (List Char)) (cs : List Char) :
    linesFrom line (finished ++ more) cs = more.reverse ++ linesFrom line finished cs := by
  induction line, finished, cs using linesFrom.induct with
  | case1 line finished =>
    rw [linesFrom, linesFrom, ← List.reverse_append]
    split <;> rfl
  | case2 line finished rest ih =>
    rw [linesFrom, linesFrom, ← ih]
    rfl
  | case3 line finished c rest hOther hEnd ih =>
    rw [linesFrom, linesFrom, if_pos hEnd, if_pos hEnd, ← ih]
    · rfl
    · exact hOther
    · exact hOther
  | case4 line finished c rest hOther hEnd ih =>
    rw [linesFrom, linesFrom, if_neg hEnd, if_neg hEnd, ← ih]
    · exact hOther
    · exact hOther

theorem linesFrom_finished (finished : List (List Char)) (cs : List Char) :
    linesFrom [] finished cs = finished.reverse ++ lines cs := by
  have hSplit := linesFrom_append [] [] finished cs
  rwa [List.nil_append] at hSplit

/-- Blanks that end no line. -/
def IsGap (cs : List Char) : Prop := ∀ c ∈ cs, isBlank c = true ∧ isLineEnd c = false

instance (cs : List Char) : Decidable (IsGap cs) :=
  decidable_of_iff (cs.all fun c => isBlank c && !isLineEnd c) (by simp [IsGap])

def IsOneLine (cs : List Char) : Prop := ∀ c ∈ cs, isLineEnd c = false

instance (cs : List Char) : Decidable (IsOneLine cs) :=
  decidable_of_iff (cs.all (!isLineEnd ·)) (by simp [IsOneLine])

/-- The ways to end a line. -/
def IsEnding (cs : List Char) : Prop := cs = ['\r', '\n'] ∨ ∃ c, isLineEnd c = true ∧ cs = [c]

instance (cs : List Char) : Decidable (IsEnding cs) :=
  decidable_of_iff (cs = ['\r', '\n'] ∨ cs.length = 1 ∧ cs.all isLineEnd = true) (by
    rcases cs with _ | ⟨c, _ | ⟨d, cs⟩⟩ <;> simp [IsEnding])

/-- What may follow a line: nothing, or anything behind a line end. -/
def IsTail (cs : List Char) : Prop := ∀ c ∈ cs.head?, isLineEnd c = true

/-- A line as it stands in a text: what it holds, the blanks around this, and how it ends. -/
structure Row where
  lead : List Char := []
  core : List Char
  trail : List Char := []
  ending : List Char
  isGap_lead : IsGap lead := by decide
  isGap_trail : IsGap trail := by decide
  isOneLine_core : IsOneLine core := by decide
  isEnding : IsEnding ending := by decide

namespace Row

def line (r : Row) : List Char := r.lead ++ (r.core ++ r.trail)

def text (r : Row) : List Char := r.line ++ r.ending

variable (r : Row)

theorem isLineEnd_of_mem_line : ∀ c ∈ r.line, isLineEnd c = false := by
  rw [line, List.forall_mem_append, List.forall_mem_append]
  exact ⟨fun c hc => (r.isGap_lead c hc).2, r.isOneLine_core, fun c hc => (r.isGap_trail c hc).2⟩

theorem trim_line : trim r.line = trim r.core :=
  trim_between (fun c hc => (r.isGap_lead c hc).1) (fun c hc => (r.isGap_trail c hc).1) r.core

end Row

theorem lines_line {line ending : List Char} (hLine : ∀ c ∈ line, isLineEnd c = false)
    (hEnding : IsEnding ending) (rest : List Char) :
    ∃ others, lines (line ++ (ending ++ rest)) = line :: lines others ∧
      (others = rest ∨ rest = '\n' :: others) := by
  have hCut (others : List Char) : linesFrom [] [line.reverse.reverse] others = line :: lines others := by
    rw [linesFrom_finished, List.reverse_reverse]
    rfl
  rw [lines, linesFrom_front hLine, List.append_nil]
  rcases hEnding with rfl | ⟨c, hEnd, rfl⟩
  · exact ⟨rest, hCut rest, .inl rfl⟩
  · rw [List.singleton_append, linesFrom.eq_def]
    split
    · rename_i hNone
      cases hNone
    · rename_i others hReturn
      cases hReturn
      exact ⟨others, hCut others, .inr rfl⟩
    · rename_i hText
      cases hText
      rw [if_pos hEnd]
      exact ⟨rest, hCut rest, .inl rfl⟩

theorem lines_last {line tail : List Char} (hLine : ∀ c ∈ line, isLineEnd c = false)
    (hSome : line ≠ []) (hTail : IsTail tail) : ∃ others, lines (line ++ tail) = line :: others := by
  cases tail with
  | nil =>
    refine ⟨[], ?_⟩
    rw [lines, linesFrom_front hLine, List.append_nil, linesFrom, if_neg (by simpa using hSome),
      List.reverse_singleton, List.reverse_reverse]
  | cons c tail =>
    obtain ⟨others, hLines, -⟩ := lines_line hLine (.inr ⟨c, hTail c rfl, rfl⟩) tail
    exact ⟨lines others, hLines⟩

/-- Lists that are the same up to empty elements that the first one lacks. -/
inductive Thinned : List (List Char) → List (List Char) → Prop
  | nil : Thinned [] []
  | keep {kept full : List (List Char)} (l : List Char) :
    Thinned kept full → Thinned (l :: kept) (l :: full)
  | drop {kept full : List (List Char)} : Thinned kept full → Thinned kept ([] :: full)

namespace Thinned

variable {kept full front back : List (List Char)} {l : List Char}

theorem subset (h : Thinned kept full) : ∀ l ∈ kept, l ∈ full := by
  induction h with
  | nil => nofun
  | keep l _ ih =>
    intro k hk
    rcases List.mem_cons.mp hk with rfl | hk
    · exact List.mem_cons_self
    · exact List.mem_cons_of_mem _ (ih k hk)
  | drop _ ih =>
    intro k hk
    exact List.mem_cons_of_mem _ (ih k hk)

theorem flatten_eq (h : Thinned kept full) : kept.flatten = full.flatten := by
  induction h with
  | nil => rfl
  | keep l _ ih => rw [List.flatten_cons, List.flatten_cons, ih]
  | drop _ ih => exact ih

theorem eq_of_ne_nil (h : Thinned kept full) (hFull : ∀ l ∈ full, l ≠ []) : kept = full := by
  induction h with
  | nil => rfl
  | keep l _ ih => rw [ih (List.forall_mem_cons.mp hFull).2]
  | drop _ _ => exact absurd rfl (hFull [] List.mem_cons_self)

theorem map_trim (h : Thinned kept full) : Thinned (kept.map trim) (full.map trim) := by
  induction h with
  | nil => exact .nil
  | keep l _ ih => exact .keep (trim l) ih
  | drop _ ih => exact .drop ih

theorem split (h : Thinned kept (front ++ back)) :
    ∃ first second, kept = first ++ second ∧ Thinned first front ∧ Thinned second back := by
  induction front generalizing kept with
  | nil => exact ⟨[], kept, rfl, .nil, h⟩
  | cons l front ih =>
    cases h with
    | keep _ h =>
      obtain ⟨first, second, rfl, hFirst, hSecond⟩ := ih h
      exact ⟨l :: first, second, rfl, .keep l hFirst, hSecond⟩
    | drop h =>
      obtain ⟨first, second, rfl, hFirst, hSecond⟩ := ih h
      exact ⟨first, second, rfl, .drop hFirst, hSecond⟩

theorem split_at (hSome : l ≠ []) (h : Thinned kept (front ++ l :: back)) :
    ∃ first second, kept = first ++ l :: second ∧ Thinned first front ∧ Thinned second back := by
  obtain ⟨first, second, rfl, hFirst, hSecond⟩ := h.split
  cases hSecond with
  | keep _ hSecond => exact ⟨first, _, rfl, hFirst, hSecond⟩
  | drop _ => exact absurd rfl hSome

end Thinned

/-- Lines that are laid out in a text are the lines of this text, up to empty ones. -/
theorem lines_rows (rows : List Row) {rest : List Char} (hRest : rest.head? ≠ some '\n') :
    ∃ kept, Thinned kept (rows.map Row.line) ∧
      lines (rows.flatMap Row.text ++ rest) = kept ++ lines rest := by
  -- carried along: what is left when a line feed in front goes with the line before
  suffices hBoth : (∃ kept, Thinned kept (rows.map Row.line) ∧
      lines (rows.flatMap Row.text ++ rest) = kept ++ lines rest) ∧
      ∀ others, rows.flatMap Row.text ++ rest = '\n' :: others →
        ∃ kept, Thinned kept (rows.map Row.line) ∧ lines others = kept ++ lines rest from hBoth.1
  induction rows with
  | nil =>
    refine ⟨⟨[], .nil, rfl⟩, ?_⟩
    rintro others rfl
    exact absurd rfl hRest
  | cons r rows ih =>
    obtain ⟨⟨kept, hKept, hLines⟩, hFeed⟩ := ih
    rw [List.flatMap_cons, Row.text, List.append_assoc, List.append_assoc]
    constructor
    · obtain ⟨others, hFirst, rfl | hMore⟩ := lines_line r.isLineEnd_of_mem_line r.isEnding
        (rows.flatMap Row.text ++ rest)
      · refine ⟨r.line :: kept, .keep _ hKept, ?_⟩
        rw [hFirst, hLines, List.cons_append]
      · obtain ⟨kept, hKept, hLines⟩ := hFeed others hMore
        refine ⟨r.line :: kept, .keep _ hKept, ?_⟩
        rw [hFirst, hLines, List.cons_append]
    · intro others hOthers
      have hLine : r.line = [] := by
        cases hChars : r.line with
        | nil => rfl
        | cons c cs =>
          rw [hChars, List.cons_append, List.cons.injEq] at hOthers
          have hFirst := r.isLineEnd_of_mem_line c (hChars ▸ List.mem_cons_self)
          rw [hOthers.1] at hFirst
          cases hFirst
      have hRows : rows.flatMap Row.text ++ rest = others := by
        rw [hLine, List.nil_append] at hOthers
        rcases r.isEnding with hReturn | ⟨c, -, hEnding⟩
        · rw [hReturn] at hOthers
          cases hOthers
        · rw [hEnding] at hOthers
          exact (List.cons.inj hOthers).2
      refine ⟨kept, ?_, hRows ▸ hLines⟩
      rw [List.map_cons, hLine]
      exact .drop hKept

/-- A text that opens with some lines, each between blanks and ended in any way, and then has one more,
also between blanks, with anything behind it that may follow a line. -/
def LaysOut (cs : List Char) (front : List (List Char)) (last : List Char) : Prop :=
  ∃ (rows : List Row) (lead trail tail : List Char), rows.map Row.core = front ∧ IsGap lead ∧
    IsGap trail ∧ IsTail tail ∧ cs = rows.flatMap Row.text ++ (lead ++ (last ++ (trail ++ tail)))

/-- A line without blanks around it, ended by a line feed. -/
def Row.bare (core : List Char) (h : IsOneLine core) : Row where
  core := core
  ending := ['\n']
  isOneLine_core := h

theorem laysOut_unlines {front : List (List Char)} {last : List Char}
    (hFront : ∀ line ∈ front, ∀ c ∈ line, isLineEnd c = false) :
    LaysOut ((front ++ [last]).flatMap (· ++ ['\n'])) front last := by
  obtain ⟨rows, hCores, hTexts⟩ : ∃ rows : List Row, rows.map Row.core = front ∧
      rows.flatMap Row.text = front.flatMap (· ++ ['\n']) := by
    induction front with
    | nil => exact ⟨[], rfl, rfl⟩
    | cons line front ih =>
      rw [List.forall_mem_cons] at hFront
      obtain ⟨rows, hCores, hTexts⟩ := ih hFront.2
      refine ⟨Row.bare line hFront.1 :: rows, congrArg (line :: ·) hCores, ?_⟩
      rw [List.flatMap_cons, List.flatMap_cons, hTexts]
      simp [Row.bare, Row.text, Row.line]
  refine ⟨rows, [], [], ['\n'], hCores, nofun, nofun, by rintro c ⟨⟩; rfl, ?_⟩
  rw [hTexts, List.flatMap_append, List.flatMap_singleton]
  rfl

theorem LaysOut.lines_eq {front : List (List Char)} {last : List Char} (h : LaysOut cs front last)
    (hLast : ∀ c ∈ last, isLineEnd c = false) (hSome : trim last ≠ []) :
    ∃ kept others, Thinned kept (front.map trim) ∧
      (lines cs).map trim = kept ++ trim last :: others := by
  obtain ⟨rows, lead, trail, tail, rfl, hLead, hTrail, hTail, rfl⟩ := h
  have hTrim : trim (lead ++ (last ++ trail)) = trim last :=
    trim_between (fun c hc => (hLead c hc).1) (fun c hc => (hTrail c hc).1) last
  have hLine : ∀ c ∈ lead ++ (last ++ trail), isLineEnd c = false := by
    rw [List.forall_mem_append, List.forall_mem_append]
    exact ⟨fun c hc => (hLead c hc).2, hLast, fun c hc => (hTrail c hc).2⟩
  have hLineSome : lead ++ (last ++ trail) ≠ [] := by
    intro hNone
    rw [hNone] at hTrim
    exact hSome hTrim.symm
  obtain ⟨others, hOthers⟩ := lines_last hLine hLineSome hTail
  have hRest : lead ++ (last ++ (trail ++ tail)) = (lead ++ (last ++ trail)) ++ tail := by
    rw [List.append_assoc, List.append_assoc]
  have hHead : ((lead ++ (last ++ trail)) ++ tail).head? ≠ some '\n' := by
    intro hFeed
    rw [List.head?_append_of_ne_nil _ hLineSome] at hFeed
    have hOther := hLine '\n' (List.mem_of_mem_head? hFeed)
    cases hOther
  obtain ⟨kept, hKept, hLines⟩ := lines_rows rows hHead
  refine ⟨kept.map trim, others.map trim, ?_, ?_⟩
  · have hTrimmed := hKept.map_trim
    rwa [List.map_map, show trim ∘ Row.line = trim ∘ Row.core from funext Row.trim_line,
      ← List.map_map] at hTrimmed
  · rw [hRest, hLines, hOthers, List.map_append, List.map_cons, hTrim]

end SshKeys.Text
