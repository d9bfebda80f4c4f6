/-!
# Splitting texts

`splitOn` cuts a text at every occurrence of a character; `lines` cuts it at the line ends of all
conventions. The two differ at the end of the text: a separator there starts a last, empty piece,
and a line end does not. `beforeLast` and `afterLast` are the parts around the last occurrence.
-/

namespace Demotion.Text

section

variable {α : Type}

/-- Puts a character in front of the first piece. -/
def consHead (c : α) : List (List α) → List (List α)
  | [] => [[c]]
  | piece :: pieces => (c :: piece) :: pieces

variable [DecidableEq α]

/-- The pieces of a text between the occurrences of `sep`, at least one. -/
def splitOn (sep : α) : List α → List (List α)
  | [] => [[]]
  | c :: rest => if c = sep then [] :: splitOn sep rest else consHead c (splitOn sep rest)

/-- What stands before the last `sep` of a text, nothing if there is none. -/
def beforeLast (sep : α) (s : List α) : List α :=
  ((s.reverse.dropWhile (· ≠ sep)).drop 1).reverse

/-- What stands after the last `sep` of a text, all of it if there is none. -/
def afterLast (sep : α) (s : List α) : List α :=
  (s.reverse.takeWhile (· ≠ sep)).reverse

theorem beforeLast_length (sep : α) (s : List α) :
    (beforeLast sep s).length ≤ s.length := by
  have h := (List.dropWhile_sublist (l := s.reverse) (· ≠ sep)).length_le
  simp only [beforeLast, List.length_reverse, List.length_drop] at *
  omega

end

/-- Line feed and the other characters that end a line. -/
def isLineEnd (c : Char) : Bool :=
  c = '\n' || c = '\r' || c = '\x0b' || c = '\x0c' || c = '\x1c' || c = '\x1d' || c = '\x1e' ||
    c = '\u0085' || c = '\u2028' || c = '\u2029'

/-- The lines of a text. A carriage return before a line feed belongs to it, and a line end at the
end of the text starts no further line. -/
def lines : List Char → List (List Char)
  | [] => []
  | '\r' :: '\n' :: rest => [] :: lines rest
  | c :: rest => if isLineEnd c then [] :: lines rest else consHead c (lines rest)

/-- Whether `part` occurs in a text. -/
def occurs (part : List Char) : List Char → Bool
  | [] => part.isEmpty
  | c :: rest => part.isPrefixOf (c :: rest) || occurs part rest

/-- What follows `start` in a text that begins with it. -/
def after? : (start : List Char) → List Char → Option (List Char)
  | [], s => some s
  | _ :: _, [] => none
  | c :: start, d :: s => if c = d then after? start s else none

theorem after?_append {start s rest : List Char} (h : after? start s = some rest) :
    s = start ++ rest := by
  fun_induction after? start s with
  | case1 => simp at h; simp [h]
  | case2 => simp at h
  | case3 start d s ih => simp [ih h]
  | case4 => simp at h

end Demotion.Text
