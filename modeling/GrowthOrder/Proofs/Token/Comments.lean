import GrowthOrder.Proofs.Token.Printing
import Mathlib

/-!
# Exactly the comments are taken out

A text is read here as a row of segments: ordinary characters, single slashes, quoted literals on
one line, and comments of both forms. Where a segment ends is its own matter, apart from two rules
about what comes next: a slash stands before no character with which it would begin a comment, and a
line comment goes as far as its line. Taking comments out then puts one blank in the place of each
comment and keeps all other segments, whatever a literal holds that looks like a comment and
whatever quotes a comment holds.
-/
namespace GrowthOrder.Comment

/-- A stretch of a text between two places at which no literal and no comment is open. -/
inductive Segment
  | plain (cs : List Char) (ordinary : ∀ c ∈ cs, c ≠ '"' ∧ c ≠ '\x27' ∧ c ≠ '/')
  | slash
  | quoted (q : Char) (body : List Char) (quote : q = '"' ∨ q = '\x27') (closed : QuotedBody q body)
      (oneLine : '\n' ∉ body)
  | line (cs : List Char) (oneLine : '\n' ∉ cs)
  /-- The text ends at the first end mark behind the opening one. -/
  | block (cs : List Char) (first : ¬ ['*', '/'] <:+: cs ++ ['*'])

namespace Segment

def text : Segment → List Char
  | plain cs _ => cs
  | slash => ['/']
  | quoted q body _ _ _ => q :: body
  | line cs _ => '/' :: '/' :: cs
  | block cs _ => '/' :: '*' :: (cs ++ ['*', '/'])

def isComment : Segment → Bool
  | line _ _ | block _ _ => true
  | plain _ _ | slash | quoted _ _ _ _ _ => false

/-- What is left of a segment. -/
def remains (s : Segment) : List Char :=
  if s.isComment then [' '] else s.text

/-- Whether the segment ends where this text begins. -/
def EndsBefore (rest : List Char) : Segment → Prop
  | slash => rest.head? ≠ some '/' ∧ rest.head? ≠ some '*'
  | line _ _ => rest.head? = none ∨ rest.head? = some '\n'
  | plain _ _ | quoted _ _ _ _ _ | block _ _ => True

/-- Every segment ends where the next one begins. -/
def Aligned : List Segment → Prop
  | [] => True
  | s :: segments => s.EndsBefore (segments.flatMap text) ∧ Aligned segments

end Segment

variable {cs rest : List Char}

theorem strip_ordinary (h : ∀ c ∈ cs, c ≠ '"' ∧ c ≠ '\x27' ∧ c ≠ '/') :
    strip (cs ++ rest) = cs ++ strip rest := by
  induction cs with
  | nil => rfl
  | cons c cs ih =>
    obtain ⟨hq, hq', hs⟩ := h c List.mem_cons_self
    rw [List.cons_append, strip_cons_plain hq hq' fun hc => absurd hc hs,
      ih fun x hx => h x (List.mem_cons_of_mem _ hx), List.cons_append]

theorem strip_line (hn : '\n' ∉ cs) (hrest : rest.head? = none ∨ rest.head? = some '\n') :
    strip ('/' :: '/' :: cs ++ rest) = ' ' :: strip rest := by
  have hinside : ∀ c ∈ '/' :: cs, decide (c ≠ '\n') = true := by
    intro c hc
    rw [decide_eq_true_iff]
    rintro rfl
    rcases List.mem_cons.1 hc with hslash | hmem
    · cases hslash
    · exact hn hmem
  have hstop : rest.dropWhile (fun c => decide (c ≠ '\n')) = rest := by
    cases rest with
    | nil => rfl
    | cons c rest =>
      obtain rfl : c = '\n' := by simpa using hrest
      rfl
  have hdrop : ('/' :: cs ++ rest).dropWhile (fun c => decide (c ≠ '\n')) = rest := by
    rw [List.dropWhile_append_of_pos hinside, hstop]
  rw [List.cons_append, strip, if_neg (by decide), if_pos ⟨rfl, rfl⟩, hdrop]

/-- A block comment ends at the first end mark. -/
theorem blockExtent_append (hfirst : ¬ ['*', '/'] <:+: cs ++ ['*']) (rest : List Char) :
    blockExtent (cs ++ '*' :: '/' :: rest) = some (cs.length + 2) := by
  induction cs with
  | nil => rfl
  | cons c cs ih =>
    -- a star here would end the comment only if the slash of an earlier end mark followed
    have hopen : ∀ tail, c = '*' → cs ++ '*' :: '/' :: rest = '/' :: tail → False := by
      rintro tail rfl htail
      cases cs with
      | nil => cases htail
      | cons x cs =>
        obtain rfl : x = '/' := (List.cons.inj htail).1
        exact hfirst (List.prefix_append ['*', '/'] _).isInfix
    have hrest : ¬ ['*', '/'] <:+: cs ++ ['*'] := fun h => hfirst (List.infix_cons h)
    rw [List.cons_append, blockExtent.eq_3 _ _ hopen, ih hrest]
    rfl

theorem strip_block (hfirst : ¬ ['*', '/'] <:+: cs ++ ['*']) :
    strip ('/' :: '*' :: (cs ++ ['*', '/']) ++ rest) = ' ' :: strip rest := by
  have htext : '/' :: '*' :: (cs ++ ['*', '/']) ++ rest =
      '/' :: '*' :: (cs ++ '*' :: '/' :: rest) := by simp
  have hdrop : ('*' :: (cs ++ '*' :: '/' :: rest)).drop (cs.length + 2 + 1) = rest := by simp
  rw [htext, strip, if_neg (by decide), if_neg (by simp), if_pos ⟨rfl, rfl⟩, List.tail_cons,
    blockExtent_append hfirst]
  exact congrArg (fun cs => ' ' :: strip cs) hdrop

/-- One segment: it is kept or replaced, and the text behind it is read from its beginning. -/
theorem strip_segment {s : Segment} (h : s.EndsBefore rest) :
    strip (s.text ++ rest) = s.remains ++ strip rest := by
  cases s with
  | plain cs ordinary => exact strip_ordinary ordinary
  | slash => exact strip_cons_plain (by decide) (by decide) fun _ => h
  | quoted q body quote closed oneLine => exact strip_quoted quote closed oneLine
  | line cs oneLine => exact strip_line oneLine h
  | block cs first => exact strip_block first

/-- The text without its comments is the row of segments with one blank for each comment. -/
theorem strip_segments (segments : List Segment) (h : Segment.Aligned segments) :
    strip (segments.flatMap Segment.text) = segments.flatMap Segment.remains := by
  induction segments with
  | nil => rw [List.flatMap_nil, List.flatMap_nil, strip]
  | cons s segments ih =>
    rw [List.flatMap_cons, List.flatMap_cons, strip_segment h.1, ih h.2]

/-- A slash before a string that holds comment marks and an escaped quote, a block comment whose
text is one slash, and a line comment with quotes. -/
theorem strip_segments_quotes :
    ∃ segments : List Segment, Segment.Aligned segments ∧
      segments.flatMap Segment.text = "a/\"//\\\"*/\"/*/*/// \"it's\n".toList ∧
      strip "a/\"//\\\"*/\"/*/*/// \"it's\n".toList = "a/\"//\\\"*/\"  \n".toList := by
  have hclosed : QuotedBody '"' ['/', '/', '\\', '"', '*', '/', '"'] :=
    .char (by decide) (by decide) <| .char (by decide) (by decide) <| .escape (by decide) <|
      .char (by decide) (by decide) <| .char (by decide) (by decide) .close
  let segments : List Segment := [.plain ['a'] (by simp), .slash,
    .quoted '"' ['/', '/', '\\', '"', '*', '/', '"'] (.inl rfl) hclosed (by decide),
    .block ['/'] (by decide), .line [' ', '"', 'i', 't', '\x27', 's'] (by decide),
    .plain ['\n'] (by simp)]
  have hslash : Segment.EndsBefore ((segments.drop 2).flatMap Segment.text) .slash := by
    simp [Segment.EndsBefore, segments, Segment.text]
  have haligned : Segment.Aligned segments :=
    ⟨trivial, hslash, trivial, trivial, .inr rfl, trivial, trivial⟩
  have htext : segments.flatMap Segment.text = "a/\"//\\\"*/\"/*/*/// \"it's\n".toList := rfl
  have hstrip := strip_segments segments haligned
  rw [htext] at hstrip
  exact ⟨segments, haligned, htext, hstrip.trans rfl⟩

end GrowthOrder.Comment
