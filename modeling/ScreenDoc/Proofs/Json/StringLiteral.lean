import ScreenDoc.Json.Printer
import ScreenDoc.Json.StringLiteral

/-!
# Reading back string literals

Every character of a written string is scanned as one piece that decodes to that character alone:
a short escape and a plain character name it, and a control character becomes a unit far below the
surrogates. So a literal is read back whatever follows it.
-/

namespace ScreenDoc.StringLiteral

private theorem hexUnit_hexDigit {n : Nat} (h : n < 0x20) :
    hexUnit '0' '0' (Json.hexDigit (n / 16)) (Json.hexDigit (n % 16)) = some n := by
  revert n
  decide

private theorem decode_unit {n : Nat} (h : n < 0xD800) (pieces : List Piece) :
    decode (.unit n :: pieces) = (decode pieces).map (Char.ofNat n :: ·) := by
  have hhigh : ¬(0xD800 ≤ n ∧ n ≤ 0xDBFF) := by omega
  have hlow : ¬(0xDC00 ≤ n ∧ n ≤ 0xDFFF) := by omega
  have halone : ¬(0xD800 ≤ n ∧ n ≤ 0xDFFF) := by omega
  match pieces with
  | [] => simp [decode, halone]
  | .char c :: pieces => simp [decode, halone]
  | .unit low :: pieces => simp [decode, hhigh, hlow]

private theorem exists_piece (c : Char) : ∃ piece,
    (∀ rest, scan (Json.escape c ++ rest) = (piece :: (scan rest).1, (scan rest).2)) ∧
      ∀ pieces, decode (piece :: pieces) = (decode pieces).map (c :: ·) := by
  unfold Json.escape
  split
  case h_8 hquote hslash _ _ _ _ _ =>
    split
    · rename_i hc
      refine ⟨.unit c.toNat, fun rest => ?_, fun pieces => ?_⟩
      · simp only [List.cons_append, List.nil_append]
        rw [scan, hexUnit_hexDigit hc]
      · rw [decode_unit (by omega), Char.ofNat_toNat]
    · rename_i hc
      refine ⟨.char c, fun rest => ?_, fun pieces => by rw [decode]⟩
      simp only [List.cons_append, List.nil_append]
      rw [scan, if_neg hc]
      · exact hquote
      all_goals
        intros
        exact absurd ‹c = '\\'› hslash
  all_goals
    refine ⟨.char _, fun rest => ?_, fun pieces => by rw [decode]⟩
    simp [scan, escaped]

private theorem scan_escape (cs rest : List Char) : ∃ pieces,
    scan (cs.flatMap Json.escape ++ '"' :: rest) = (pieces, .ok rest) ∧
      decode pieces = some cs := by
  induction cs with
  | nil => exact ⟨[], by simp [scan], rfl⟩
  | cons c cs ih =>
    obtain ⟨pieces, hscan, hdecode⟩ := ih
    obtain ⟨piece, hpiece, hchar⟩ := exists_piece c
    refine ⟨piece :: pieces, ?_, ?_⟩
    · rw [List.flatMap_cons, List.append_assoc, hpiece, hscan]
    · rw [hchar, hdecode, Option.map_some]

theorem read_renderString (s : String) (rest : List Char) :
    read (s.toList.flatMap Json.escape ++ '"' :: rest) = .ok (some s, rest) := by
  obtain ⟨pieces, hscan, hdecode⟩ := scan_escape s.toList rest
  rw [read, hscan]
  simp [hdecode]

end ScreenDoc.StringLiteral
