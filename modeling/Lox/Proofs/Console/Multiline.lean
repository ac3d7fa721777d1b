import Lox.Proofs.Console.Ready
import Mathlib.Data.List.Induction
import Mathlib.Data.List.Infix

namespace Lox

def stripped (line : String) : String := String.ofList (Text.strip line.toList)

def textOf (lines : List String) : String := String.join (lines.map (· ++ "\n"))

/-- What is kept of the lines of an entry. -/
def keptOf (lines : List String) : List String := (lines.map stripped).filter (· ≠ "")

theorem textOf_append (lines lines' : List String) :
    textOf (lines ++ lines') = textOf lines ++ textOf lines' := by
  simp [textOf]

theorem keptOf_append (lines lines' : List String) :
    keptOf (lines ++ lines') = keptOf lines ++ keptOf lines' := by
  simp [keptOf]

theorem count_textOf {lines : List String} (h : ∀ line ∈ lines, '\n' ∉ line.toList) :
    (textOf lines).toList.count '\n' = lines.length := by
  induction lines with
  | nil => rfl
  | cons line lines ih =>
    obtain ⟨hl, hls⟩ := List.forall_mem_cons.1 h
    rw [← List.singleton_append, textOf_append, String.toList_append, List.count_append, ih hls]
    simp [textOf, List.count_eq_zero.2 hl, Nat.add_comm]

theorem lineOf_textOf {before after : List String} {line : String}
    (h : ∀ l ∈ before ++ line :: after, '\n' ∉ l.toList) {place : Nat}
    (hge : (textOf before).toList.length ≤ place)
    (hle : place ≤ (textOf before).toList.length + line.toList.length) :
    lineOf (textOf (before ++ line :: after)).toList place = before.length + 1 := by
  have hb : ∀ l ∈ before, '\n' ∉ l.toList := fun l hl => h l (List.mem_append_left _ hl)
  have hl : '\n' ∉ line.toList := h line (by simp)
  have htext : (textOf (before ++ line :: after)).toList =
      (textOf before).toList ++ (line.toList ++ '\n' :: (textOf after).toList) := by
    simp [textOf]
  rw [htext, lineOf_append hl hge hle, count_textOf hb, Nat.add_comm]

theorem keptOf_eq_map {lines : List String} (h : ∀ line ∈ lines, stripped line ≠ "") :
    keptOf lines = lines.map stripped := by
  rw [keptOf, List.filter_eq_self]
  simpa using h

theorem newline_notMem_stripped {line : String} (h : '\n' ∉ line.toList) :
    '\n' ∉ (stripped line).toList := by
  rw [stripped, String.toList_ofList, Text.strip, Text.dropEnd, List.mem_reverse]
  intro hm
  have hm := List.mem_reverse.1 ((List.dropWhile_suffix _).subset hm)
  exact h ((List.dropWhile_suffix _).subset hm)

theorem newline_notMem_keptOf {lines : List String} (h : ∀ line ∈ lines, '\n' ∉ line.toList) :
    ∀ line ∈ keptOf lines, '\n' ∉ line.toList := by
  intro line hl
  obtain ⟨line, hline, rfl⟩ := List.mem_map.1 (List.mem_of_mem_filter hl)
  exact newline_notMem_stripped (h line hline)

namespace Command

def isText : Command → Bool
  | nothing | code _ => true
  | _ => false

theorem ofLine_eq_nothing {line : String} (h : ofLine line = .nothing) : stripped line = "" := by
  rw [ofLine] at h
  split at h
  case h_1 hs => rw [stripped, hs, String.ofList_nil]
  case h_4 =>
    simp only at h
    split at h <;> cases h
  all_goals cases h

theorem ofLine_eq_code {line text : String} (h : ofLine line = .code text) :
    stripped line = text ∧ text ≠ "" := by
  rw [ofLine] at h
  split at h
  case h_3 cs hs =>
    cases h
    exact ⟨by rw [stripped, hs], by simp⟩
  case h_4 hnil _ _ =>
    simp only at h
    split at h <;> cases h
    refine ⟨rfl, fun he => hnil ?_⟩
    simpa using he
  all_goals cases h

end Command

namespace Dialogue

variable {rounds : Nat} {d : Dialogue} {lines : List String} {last : String}

def enterAll (rounds : Nat) (lines : List String) (d : Dialogue) : Dialogue :=
  lines.foldl (fun d line => (d.enter rounds line).dialogue) d

/-- The dialogue while these lines wait. -/
def waiting (lines : List String) (d : Dialogue) : Dialogue :=
  { d with
    pending := textOf (keptOf lines)
    prompt := if lines = [] then d.prompt else secondaryPrompt }

theorem waiting_of_ne_nil (h : lines ≠ []) (d : Dialogue) :
    d.waiting lines = { d with pending := textOf (keptOf lines), prompt := secondaryPrompt } := by
  rw [waiting, if_neg h]

theorem enter_of_isText (h : (Command.ofLine last).isText = true)
    (hd : d.pending = textOf (keptOf lines)) (rounds : Nat) :
    d.enter rounds last = ⟨d, "", .goOn⟩ ∧ textOf (keptOf (lines ++ [last])) = d.pending ∨
      ∃ text, d.enter rounds last = d.enterCode rounds text ∧
        textOf (keptOf (lines ++ [last])) = d.pending ++ text ++ "\n" := by
  rw [keptOf_append, textOf_append, ← hd, enter]
  cases hc : Command.ofLine last with
  | nothing => exact .inl ⟨rfl, by simp [keptOf, textOf, Command.ofLine_eq_nothing hc]⟩
  | code text =>
    obtain ⟨hs, hne⟩ := Command.ofLine_eq_code hc
    exact .inr ⟨text, rfl, by simp [keptOf, textOf, hs, hne, String.append_assoc]⟩
  | ast | rpn | help | exit | endOfInput => simp [hc, Command.isText] at h

theorem enterAll_concat (rounds : Nat) (lines : List String) (last : String) (d : Dialogue) :
    d.enterAll rounds (lines ++ [last]) = ((d.enterAll rounds lines).enter rounds last).dialogue :=
  List.foldl_concat ..

theorem enterAll_of_open (hd : d.pending = "")
    (htext : ∀ line ∈ lines, (Command.ofLine line).isText = true)
    (hopen : ∀ before, before ≠ [] → before <+: lines → hasOpenBrace (textOf (keptOf before)) = true) :
    d.enterAll rounds lines = d.waiting lines := by
  -- the last line is the one that is entered to what waits
  induction lines using List.reverseRecOn with
  | nil =>
    obtain ⟨session, pending, prompt⟩ := d
    exact congrArg (Dialogue.mk session · prompt) hd
  | append_singleton lines last ih =>
    have hlines := ih (fun l hl => htext l (List.mem_append_left _ hl)) fun before hb hp =>
      hopen before hb (hp.trans (List.prefix_append _ _))
    have ho := hopen (lines ++ [last]) (by simp) (List.prefix_refl _)
    have hw : (d.waiting lines).pending = textOf (keptOf lines) := rfl
    rw [enterAll_concat, hlines, waiting_of_ne_nil (List.concat_ne_nil last lines)]
    obtain ⟨he, ht⟩ | ⟨text, he, ht⟩ := enter_of_isText (htext last (by simp)) hw rounds
    · have hempty : hasOpenBrace (textOf (keptOf [])) = false := by decide +kernel
      have hne : lines ≠ [] := by
        rintro rfl
        rw [ht, hw, hempty] at ho
        exact absurd ho Bool.false_ne_true
      rw [he, ht, hw, waiting_of_ne_nil hne]
    · rw [ht] at ho
      rw [he, enterCode_of_open ho, ht]
      rfl

theorem enter_of_closed (hpending : d.pending = textOf (keptOf lines))
    (ho : hasOpenBrace (textOf (keptOf lines)) = true) (htext : (Command.ofLine last).isText = true)
    (hclosed : hasOpenBrace (textOf (keptOf (lines ++ [last]))) = false) :
    d.enter rounds last = d.handOver rounds (textOf (keptOf (lines ++ [last]))) := by
  obtain ⟨he, ht⟩ | ⟨text, he, ht⟩ := enter_of_isText htext hpending rounds
  · rw [ht, hpending, ho] at hclosed
    cases hclosed
  · rw [ht] at hclosed ⊢
    rw [he, enterCode_of_no_open hclosed]

theorem handOver_log (rounds : Nat) (source : String) (d : Dialogue) :
    (d.handOver rounds source).dialogue.session.reporter.log =
      (d.session.guarded rounds source).1.reporter.log := by
  rw [handOver]
  rcases d.session.guarded rounds source with ⟨session, _ | e⟩ <;> rfl

/-- Lines that are entered together: no command is among them, and a brace is open from the first
line to the last. -/
structure IsEntry (lines : List String) (last : String) : Prop where
  ne_nil : lines ≠ []
  isLine : ∀ line ∈ lines ++ [last], '\n' ∉ line.toList
  isText : ∀ line ∈ lines ++ [last], (Command.ofLine line).isText = true
  isOpen : ∀ before, before ≠ [] → before <+: lines → hasOpenBrace (textOf (keptOf before)) = true
  isClosed : hasOpenBrace (textOf (keptOf (lines ++ [last]))) = false

/-- An entry is run when its last brace is closed, and not before. What is run are its lines that
are not blank, in their order and without the blanks at their ends. All that is reported stands in
this text, and with the number that its line has among the lines that are not blank. -/
theorem enter_entry (h : IsEntry lines last) (hd : d.pending = "") (rounds : Nat) :
    let kept := keptOf (lines ++ [last])
    let source := textOf kept
    (∀ before, before <+: lines → d.enterAll rounds before = d.waiting before) ∧
      (d.enterAll rounds lines).enter rounds last = d.handOver rounds source ∧
      ((∀ line ∈ lines ++ [last], stripped line ≠ "") →
        source = textOf ((lines ++ [last]).map stripped)) ∧
      (d.session.Finishes rounds source →
        (d.handOver rounds source).dialogue.session.reporter.log =
          d.session.reporter.log ++
            d.session.reporter.diagnostics (d.session.reported rounds source)) ∧
      ∀ p ∈ d.session.reported rounds source, ∃ place, p.StandsAt source.toList place ∧
        ∀ before line after, kept = before ++ line :: after → (textOf before).toList.length ≤ place →
          place ≤ (textOf before).toList.length + line.toList.length →
            p.line? = some (before.length + 1 : Int) := by
  intro kept source
  have hwait : ∀ before, before <+: lines → d.enterAll rounds before = d.waiting before := by
    intro before hp
    apply enterAll_of_open hd
    · exact fun line hl => h.isText line (List.mem_append_left _ (hp.subset hl))
    · exact fun before' hne hp' => h.isOpen before' hne (hp'.trans hp)
  refine ⟨hwait, ?_, fun hne => ?_, fun hf => ?_, fun p hp => ?_⟩
  · have hall := hwait lines (List.prefix_refl _)
    have ho := h.isOpen lines h.ne_nil (List.prefix_refl _)
    have hpending : (d.enterAll rounds lines).pending = textOf (keptOf lines) := by
      rw [hall]
      rfl
    rw [enter_of_closed hpending ho (h.isText last (by simp)) h.isClosed, hall]
    simp only [handOver, waiting, kept, source]
  · rw [← keptOf_eq_map hne]
  · rw [handOver_log, Session.guarded_log hf]
  · obtain ⟨place, hs⟩ := Session.standsAt_of_mem_reported hp
    refine ⟨place, hs, fun before line after hkept hge hle => ?_⟩
    have hlines : ∀ l ∈ before ++ line :: after, '\n' ∉ l.toList :=
      hkept ▸ newline_notMem_keptOf h.isLine
    have hline : lineOf source.toList place = before.length + 1 := by
      simp only [source, hkept]
      exact lineOf_textOf hlines hge hle
    rw [hs.line?_eq, hline]
    rfl

def spaced : List String := ["\x7b", "", "  print x;"]

theorem isEntry_spaced : IsEntry spaced "\x7d" where
  ne_nil := by decide
  isLine := by decide
  isText := by decide +kernel
  isOpen before hne hp := by
    have ho : ∀ before ∈ spaced.inits, before ≠ [] → hasOpenBrace (textOf (keptOf before)) = true := by
      decide +kernel
    exact ho before ((List.mem_inits _ _).2 hp) hne
  isClosed := by decide +kernel

theorem enter_entry_spaced :
    let d : Dialogue := { session := .atConsole { fatal := true, color := false } }
    (d.enterAll 0 spaced).enter 0 "\x7d" = d.handOver 0 "\x7b\nprint x;\n\x7d\n" := by
  intro d
  have hd : d.pending = "" := rfl
  have hsource : textOf (keptOf (spaced ++ ["\x7d"])) = "\x7b\nprint x;\n\x7d\n" := by decide +kernel
  rw [(enter_entry isEntry_spaced hd 0).2.1, hsource]

/-- The blank line is lost: the error on the third line is reported as one on the second. -/
theorem spaced_loses_blank :
    let d : Dialogue := { session := .atConsole { fatal := true, color := false } }
    ((d.enterAll 0 spaced).enter 0 "\x7d").dialogue.session.reporter.log =
        "[line 2] RuntimeError at 'x': Undefined variable 'x'.\n" ∧
      (d.handOver 0 (textOf ((spaced ++ ["\x7d"]).map stripped))).dialogue.session.reporter.log =
        "[line 3] RuntimeError at 'x': Undefined variable 'x'.\n" := by
  decide +kernel

end Dialogue

end Lox
