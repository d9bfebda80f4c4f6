import Demotion.Text.Split

/-!
# Repairing a float map

The tool writes its float map by formatted output, so it is not always JSON: no-break spaces stand
among its white space, and a value that overflows is a bare `inf`, `-inf` or `nan`. `repair` mends
both. It leaves string literals alone, and replaces a bare word only where a value ends after it.
-/

namespace Demotion.FloatMap

/-- A no-break space becomes a space. -/
def plainSpace (c : Char) : Char :=
  if c = '\u00A0' then ' ' else c

/-- The rest of a string literal after its opening quote, up to the closing one, and what follows.
A backslash takes the next character with it, but not a line feed. -/
def splitLiteral? : List Char → Option (List Char × List Char)
  | [] => none
  | '"' :: rest => some (['"'], rest)
  | '\\' :: c :: rest =>
    if c = '\n' then none
    else (splitLiteral? rest).map fun r => ('\\' :: c :: r.1, r.2)
  | c :: rest => (splitLiteral? rest).map fun r => (c :: r.1, r.2)

theorem splitLiteral?_append {s literal rest : List Char}
    (h : splitLiteral? s = some (literal, rest)) : s = literal ++ rest := by
  fun_induction splitLiteral? s generalizing literal rest with
  | case1 => simp at h
  | case2 rest' =>
    simp at h
    obtain ⟨rfl, rfl⟩ := h
    rfl
  | case3 => simp at h
  | case4 c rest' _ ih =>
    simp only [Option.map_eq_some_iff, Prod.mk.injEq, Prod.exists] at h
    obtain ⟨l, r, hr, rfl, rfl⟩ := h
    simp [ih hr]
  | case5 c rest' _ _ ih =>
    simp only [Option.map_eq_some_iff, Prod.mk.injEq, Prod.exists] at h
    obtain ⟨l, r, hr, rfl, rfl⟩ := h
    simp [ih hr]

/-- White space that may stand between a colon and a bare word. -/
def isGap (c : Char) : Bool :=
  c = ' ' || c = '\t'

/-- Whether a value may end before `s`: blanks follow, and then a comma, a closing brace or the end
of the line. -/
def endsValue (s : List Char) : Bool :=
  match s.dropWhile fun c => c = ' ' || c = '\t' || c = '\r' with
  | [] => true
  | c :: _ => c = ',' || c = '\x7d' || c = '\n'

/-- The bare words, each with the string literal that stands for it. -/
def bareWords : List (List Char × List Char) :=
  [("-inf".toList, "\"-Infinity\"".toList), ("inf".toList, "\"Infinity\"".toList),
    ("nan".toList, "\"NaN\"".toList)]

/-- A bare word that is a whole value at the head of a text: its literal and what follows it. -/
def splitBareWord? (s : List Char) : Option (List Char × List Char) :=
  bareWords.findSome? fun w =>
    match Text.after? w.1 s with
    | some rest => if endsValue rest then some (w.2, rest) else none
    | none => none

theorem splitBareWord?_length {s literal rest : List Char}
    (h : splitBareWord? s = some (literal, rest)) : rest.length ≤ s.length := by
  obtain ⟨w, -, hw⟩ := List.exists_of_findSome?_eq_some h
  split at hw
  · rename_i r hr
    split at hw <;> simp at hw
    obtain ⟨-, rfl⟩ := hw
    simp [Text.after?_append hr]
  · simp at hw

/-- Replaces the bare words of a text without no-break spaces. -/
def replaceWords (s : List Char) : List Char :=
  match s with
  | [] => []
  | '"' :: rest =>
    match h : splitLiteral? rest with
    | some (literal, rest') =>
      have : rest'.length ≤ rest.length := by simp [splitLiteral?_append h]
      '"' :: literal ++ replaceWords rest'
    | none => '"' :: replaceWords rest
  | ':' :: rest =>
    match h : splitBareWord? (rest.dropWhile isGap) with
    | some (literal, rest') =>
      have : rest'.length ≤ rest.length :=
        Nat.le_trans (splitBareWord?_length h) (List.dropWhile_sublist isGap).length_le
      ':' :: rest.takeWhile isGap ++ literal ++ replaceWords rest'
    | none => ':' :: replaceWords rest
  | c :: rest => c :: replaceWords rest
  termination_by s.length
  decreasing_by all_goals (simp; try omega)

/-- The characters of a float map with spaces for the no-break spaces and string literals for the bare
words. -/
def repair (raw : List Char) : List Char :=
  replaceWords (raw.map plainSpace)

/-- The text of a float map, mended so that it can be read as JSON. -/
def sanitize (raw : String) : String :=
  String.ofList (repair raw.toList)

end Demotion.FloatMap
