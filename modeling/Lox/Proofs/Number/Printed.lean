import Lox.Proofs.Number.Finite
import Lox.Proofs.Number.Worth
import Lox.Proofs.Source.Spaced

namespace Lox

namespace Number

variable {x y : Float}

theorem toList_write (layout : Decimal → List Char) (notANumber : String) (h : x.isFinite = true) :
    (write layout notANumber x).toList =
      (if isNegative x then ['-'] else []) ++ layout (.shortest (magnitudeOf x)) := by
  have hlt := magnitudeOf_lt h
  simp only [write, Nat.lt_asymm hlt, Nat.ne_of_lt hlt, if_false]
  split_ifs <;> simp

theorem toList_text (h : x.isFinite = true) :
    (text x).toList = (if isNegative x then ['-'] else []) ++ (Decimal.shortest (magnitudeOf x)).plain :=
  toList_write _ _ h

theorem toList_inspect (h : x.isFinite = true) :
    (inspect x).toList =
      (if isNegative x then ['-'] else []) ++ (Decimal.shortest (magnitudeOf x)).general :=
  toList_write _ _ h

theorem head?_text (h : x.isFinite = true) : (text x).toList.head? = some '-' ↔ isNegative x = true := by
  rw [toList_text h]
  exact head?_signed _ (Decimal.unsigned?_plain _)

theorem head?_inspect (h : x.isFinite = true) :
    (inspect x).toList.head? = some '-' ↔ isNegative x = true := by
  rw [toList_inspect h]
  exact head?_signed _ (Decimal.unsigned?_general _)

/-- No two finite numbers are printed in the same way, not even the two zeros. -/
theorem eq_of_text (hx : x.isFinite = true) (hy : y.isFinite = true) (h : text x = text y) : x = y := by
  have hs : isNegative x = isNegative y := by
    rw [Bool.eq_iff_iff, ← head?_text hx, ← head?_text hy, h]
  have hplain : (Decimal.shortest (magnitudeOf x)).plain = (Decimal.shortest (magnitudeOf y)).plain := by
    have hl := congrArg String.toList h
    rw [toList_text hx, toList_text hy, hs] at hl
    exact List.append_cancel_left hl
  have hltx := magnitudeOf_lt hx
  have hlty := magnitudeOf_lt hy
  have hmagnitude : ofMagnitude (magnitudeOf x) = ofMagnitude (magnitudeOf y) := by
    apply ofMagnitude_of_text (Nat.le_of_lt hltx) (Nat.le_of_lt hlty)
    rw [text_ofMagnitude hltx, text_ofMagnitude hlty, hplain]
  refine eq_of_magnitudeOf hs ?_
  rw [← toBits_ofMagnitude hltx, hmagnitude, toBits_ofMagnitude hlty]

end Number

theorem scan_lexeme {s : String} {k : Kind} {v : Value} (h : Lexeme s.toList k v) (hk : k ≠ .string) :
    scan s = ⟨[⟨k, s, v, 1⟩, ⟨.eof, "", .nil, 1⟩], []⟩ := by
  have hsplit : Piece.split s.toList = [.token k s.toList v] := by
    have hl := Piece.split_lexeme h delimited_nil
    rwa [List.append_nil] at hl
  have hlines : s.toList.count '\n' = 0 := List.count_eq_zero.2 (h.blank_notMem_of_kind hk (by decide))
  simp [scan, hsplit, Piece.numbered, Piece.lineBehind, Piece.newlines, Piece.text, Piece.token?,
    Piece.error?, hlines]

open Number

/-- A finite number is printed as a plain decimal with its sign, which stands for the same fraction
as the number does in the text for inspection. Without its sign it is scanned as a number token that
has it as its literal, and no other finite number is printed in the same way. -/
theorem Value.text_num {x : Float} (h : x.isFinite = true) :
    (∃ cs, IsPlain cs ∧ (num x).text.toList = (if isNegative x then ['-'] else []) ++ cs) ∧
      (∃ q, worth? (num x).text.toList = some q ∧ worth? (num x).inspect.toList = some q) ∧
      ((num x).text.toList.head? = some '-' ↔ isNegative x = true) ∧
      ((num x).inspect.toList.head? = some '-' ↔ isNegative x = true) ∧
      scan (num x.abs).text = ⟨[⟨.number, (num x.abs).text, num x.abs, 1⟩, ⟨.eof, "", .nil, 1⟩], []⟩ ∧
      ∀ y : Float, y.isFinite = true → (num x).text = (num y).text → x = y := by
  have hplain := Decimal.isPlain_plain (Decimal.isTrimmed_shortest (magnitudeOf x))
  have hworth : ∃ q, worth? (num x).text.toList = some q ∧ worth? (num x).inspect.toList = some q := by
    refine ⟨if isNegative x then
      -(Decimal.shortest (magnitudeOf x)).worth else (Decimal.shortest (magnitudeOf x)).worth,
      ?_, ?_⟩
    · rw [text, toList_text h]
      exact worth?_signed _ (Decimal.unsigned?_plain _)
    · rw [inspect, toList_inspect h]
      exact worth?_signed _ (Decimal.unsigned?_general _)
  have hscan :
      scan (num x.abs).text =
        ⟨[⟨.number, (num x.abs).text, num x.abs, 1⟩, ⟨.eof, "", .nil, 1⟩], []⟩ := by
    rw [abs_eq_ofMagnitude h]
    exact scan_lexeme (lexeme_text (magnitudeOf_lt h)) (by decide)
  exact ⟨⟨_, hplain, toList_text h⟩, hworth, head?_text h, head?_inspect h, hscan,
    fun y hy => eq_of_text h hy⟩

/-- A small number, which has an exponent in the text for inspection: nothing else is printed like
it. -/
theorem Value.text_num_small :
    let x : Float := -1.5e-7
    x.isFinite = true ∧ (num x).text = "-0.00000015" ∧ (num x).inspect = "-1.5e-07" ∧
      worth? "-1.5e-07".toList = some (-3 / 20000000) ∧
      worth? "-0.00000015".toList = some (-3 / 20000000) ∧
      scan "0.00000015" = ⟨[⟨.number, "0.00000015", num 1.5e-7, 1⟩, ⟨.eof, "", .nil, 1⟩], []⟩ ∧
      ∀ y : Float, y.isFinite = true → (num y).text = "-0.00000015" → y = x := by
  intro x
  have hfinite : x.isFinite = true := by decide +kernel
  have htext : (num x).text = "-0.00000015" := by decide +kernel
  have hinspect : (num x).inspect = "-1.5e-07" := by decide +kernel
  have habs : x.abs = 1.5e-7 := by decide +kernel
  have hunsigned : (num 1.5e-7).text = "0.00000015" := by decide +kernel
  have hexponent : worth? "-1.5e-07".toList = some (-3 / 20000000) := by decide +kernel
  obtain ⟨-, ⟨q, hq, hq'⟩, -, -, hscan, hinj⟩ := text_num hfinite
  rw [hinspect, hexponent] at hq'
  rw [htext, ← hq'] at hq
  rw [habs, hunsigned] at hscan
  exact ⟨hfinite, htext, hinspect, hexponent, hq, hscan,
    fun y hy h => (hinj y hy (htext.trans h.symm)).symm⟩

end Lox
