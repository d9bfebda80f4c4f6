import Demotion.Proofs.Text.Lossy
import Demotion.Tool

/-!
# What is kept of the output of the tool

Output is kept up to a limit of bytes, wherever in a character the limit falls. The text that is kept is a
part of the text of the whole output, with at most one U+FFFD behind it for the character at the cut. The limit
itself may be a number of bytes up to which no file can be read; then there is no text at all.

* `Captured.Shows`: what the text that is kept shows of the whole output.
* `ofBytes_shows_iff`: **output is kept so, unless the limit is no number of bytes to be read.**
* `ofBytes_refused`: a limit for which it is not kept.
-/

namespace Demotion

open Text.Utf8 (decodeLossy decodeLossy_append)

namespace Captured

/-- What is kept of output under a limit. It is truncated exactly if it has more bytes than the limit says, and
it is all there if it is not truncated. The text is a part of the whole text from its start on, with nothing or
one U+FFFD behind it; this part leaves out at most three of the bytes before the cut, and what follows it in the
whole text is what these bytes and those behind the cut say. -/
structure Shows (c : Captured) (limit : Int) (bytes : List UInt8) : Prop where
  truncated : c.truncated = true ↔ limit < bytes.length
  whole : c.truncated = false → c.text.toList = decodeLossy bytes
  cut : ∃ kept tail left, c.text.toList = kept ++ tail ∧ kept <+: decodeLossy bytes ∧
    (tail = [] ∨ tail = ['\uFFFD']) ∧ left <:+ bytes.take limit.toNat ∧ left.length ≤ 3 ∧
    decodeLossy bytes = kept ++ decodeLossy (left ++ bytes.drop limit.toNat)

/-- Whether output can be read does not depend on the output. -/
theorem ofBytes_cases (memory limit : Int) (bytes : List UInt8) :
    (∃ e, ReadSize.check memory (limit + 1) = .error e ∧ ofBytes memory limit bytes = .error e) ∨
      ReadSize.check memory (limit + 1) = .ok () ∧ ∃ c, ofBytes memory limit bytes = .ok c := by
  unfold ofBytes
  cases ReadSize.check memory (limit + 1) with
  | error e => exact Or.inl ⟨e, rfl, rfl⟩
  | ok u =>
    refine Or.inr ⟨rfl, ?_⟩
    simp only
    split
    · exact ⟨_, rfl⟩
    · exact ⟨_, rfl⟩

variable {memory limit : Int} (bytes : List UInt8)

theorem ofBytes_eq_ok (hlimit : 0 ≤ limit) (hcheck : ReadSize.check memory (limit + 1) = .ok ()) :
    ofBytes memory limit bytes =
      .ok ⟨String.ofList (decodeLossy (bytes.take limit.toNat)), limit < bytes.length⟩ := by
  unfold ofBytes
  rw [hcheck]
  exact if_neg (by omega)

/-- What is kept of the bytes up to a limit. -/
theorem shows_take (hlimit : 0 ≤ limit) :
    Shows ⟨String.ofList (decodeLossy (bytes.take limit.toNat)), limit < bytes.length⟩ limit bytes := by
  refine ⟨?_, ?_, ?_⟩
  · exact decide_eq_true_iff
  · intro hwhole
    have hlength : ¬limit < bytes.length := of_decide_eq_false hwhole
    rw [String.toList_ofList, List.take_of_length_le (by omega)]
  · obtain ⟨kept, left, hleft, hshort, hwhole, hpart⟩ :=
      decodeLossy_append (bytes.take limit.toNat) (bytes.drop limit.toNat)
    rw [List.take_append_drop] at hwhole
    refine ⟨kept, if left = [] then [] else ['\uFFFD'], left, ?_, ⟨_, hwhole.symm⟩, ?_, hleft, hshort, hwhole⟩
    · rw [String.toList_ofList, hpart]
    · by_cases hnil : left = []
      · rw [if_pos hnil]
        exact Or.inl rfl
      · rw [if_neg hnil]
        exact Or.inr rfl

/-- **Output is kept so, unless the limit is no number of bytes to be read**, for all bytes, well formed or
not. -/
theorem ofBytes_shows_iff (memory limit : Int) (bytes : List UInt8) (hlimit : 1 ≤ limit) :
    ((∃ c, ofBytes memory limit bytes = .ok c ∧ c.Shows limit bytes) ↔
        ReadSize.check memory (limit + 1) = .ok ()) ∧
      ∀ e, ofBytes memory limit bytes = .error e ↔ ReadSize.check memory (limit + 1) = .error e := by
  rcases ofBytes_cases memory limit bytes with ⟨e, hcheck, hbytes⟩ | ⟨hcheck, -⟩
  · rw [hcheck, hbytes]
    refine ⟨⟨?_, fun h => by cases h⟩, fun e' => ?_⟩
    · rintro ⟨c, hc, -⟩
      cases hc
    · rw [Except.error.injEq, Except.error.injEq]
  · have hbytes := ofBytes_eq_ok bytes (by omega) hcheck
    rw [hcheck, hbytes]
    refine ⟨⟨fun _ => rfl, fun _ => ⟨_, rfl, shows_take bytes (by omega)⟩⟩, fun e => ?_⟩
    constructor
    · intro h
      cases h
    · intro h
      cases h

/-- A letter, a byte that starts no character, and four bytes of one character, of which the last is cut off. -/
theorem ofBytes_shows_iff_inside :
    (1 : Int) ≤ 5 ∧ ofBytes 1000 5 [0x41, 0xC0, 0xF0, 0x9F, 0x98, 0x80] = .ok ⟨"A\uFFFD\uFFFD", true⟩ ∧
      Shows ⟨"A\uFFFD\uFFFD", true⟩ 5 [0x41, 0xC0, 0xF0, 0x9F, 0x98, 0x80] := by
  have hkept : ofBytes 1000 5 [0x41, 0xC0, 0xF0, 0x9F, 0x98, 0x80] = .ok ⟨"A\uFFFD\uFFFD", true⟩ := by
    decide +kernel
  obtain ⟨c, hc, hshows⟩ :=
    (ofBytes_shows_iff 1000 5 [0x41, 0xC0, 0xF0, 0x9F, 0x98, 0x80] (by decide)).1.2 (by decide)
  rw [hkept] at hc
  obtain rfl := Except.ok.inj hc
  exact ⟨by decide, hkept, hshows⟩

/-- **A limit can be too large for output to be kept at all**, though there are two bytes of it, with all the
memory that there could be. -/
theorem ofBytes_refused :
    ¬∃ memory : Int, ∀ (limit : Int) (bytes : List UInt8), 1 ≤ limit →
      ∃ c, ofBytes memory limit bytes = .ok c ∧ c.Shows limit bytes := by
  rintro ⟨memory, h⟩
  obtain ⟨c, hc, -⟩ := h 9223372036854775807 [0x68, 0x69] (by decide)
  have herror : ofBytes memory 9223372036854775807 [0x68, 0x69] = .error .notIndex := rfl
  rw [herror] at hc
  cases hc

end Captured

end Demotion
