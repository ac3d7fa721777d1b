import Lox.Proofs.Text.Visible
import Lox.Text.Outline

namespace Lox.Text

def indented (level : Nat) (s : String) : String :=
  "\n".intercalate
    ((s.toList.splitOn '\n').map fun line => String.ofList (List.replicate (4 * level) ' ' ++ line))

def hang (level : Nat) (c : Char) : List Char :=
  if c = '\n' then '\n' :: List.replicate (4 * level) ' ' else [c]

def hanging (level : Nat) (s : String) : String := String.ofList (s.toList.flatMap (hang level))

variable {s t : String} {m n level : Nat}

theorem toList_pad (level : Nat) : (pad level).toList = List.replicate (4 * level) ' ' :=
  String.toList_ofList

theorem pad_append (m n : Nat) : pad m ++ pad n = pad (m + n) := by
  rw [← String.toList_inj, String.toList_append, toList_pad, toList_pad, toList_pad,
    List.replicate_append_replicate, Nat.mul_add]

theorem isOneLine_pad (level : Nat) : isOneLine (pad level) = true := by
  have hspace : isVisible ' ' = true := isVisible_of_isBasic (by decide)
  rw [isOneLine, toList_pad, List.all_replicate, hspace]
  simp

theorem hanging_append (s t : String) : hanging n (s ++ t) = hanging n s ++ hanging n t := by
  rw [← String.toList_inj]
  simp [hanging]

theorem hanging_join (ss : List String) :
    hanging n (String.join ss) = String.join (ss.map (hanging n)) := by
  induction ss with
  | nil => rfl
  | cons s ss ih => rw [String.join_cons, hanging_append, ih, List.map_cons, String.join_cons]

theorem hanging_of_isOneLine (h : isOneLine s = true) : hanging n s = s := by
  have hc : ∀ c ∈ s.toList, hang n c = [c] := by
    intro c hm
    refine if_neg ?_
    rintro rfl
    exact newline_notMem h hm
  rw [hanging, List.flatMap_congr hc, List.flatMap_singleton', String.ofList_toList]

theorem hanging_newline (n : Nat) : hanging n "\n" = "\n" ++ pad n := by
  rw [← String.toList_inj, String.toList_append, toList_pad, hanging, String.toList_ofList]
  simp [hang]

theorem hanging_line (n level : Nat) : hanging n ("\n" ++ pad level) = "\n" ++ pad (n + level) := by
  rw [hanging_append, hanging_newline, hanging_of_isOneLine (isOneLine_pad level),
    String.append_assoc, pad_append]

theorem hanging_hanging (s : String) : hanging m (hanging n s) = hanging (m + n) s := by
  have hchar : ∀ c, (hang n c).flatMap (hang m) = hang (m + n) c := by
    intro c
    by_cases hc : c = '\n'
    · have hpad := congrArg String.toList (hanging_line m n)
      simpa [hanging, hang, hc, toList_pad] using hpad
    · simp [hang, hc]
  rw [← String.toList_inj]
  simp only [hanging, String.toList_ofList, List.flatMap_assoc, hchar]

theorem exists_intercalate_cons (ls : List (List Char)) :
    ∃ rest, ∀ l, ['\n'].intercalate (l :: ls) = l ++ rest := by
  cases ls with
  | nil => exact ⟨[], fun l => by rw [List.intercalate_singleton, List.append_nil]⟩
  | cons m ms =>
    refine ⟨['\n'] ++ ['\n'].intercalate (m :: ms), fun l => ?_⟩
    rw [List.intercalate_cons_cons, List.append_assoc]

theorem intercalate_map_splitOn (spaces cs : List Char) :
    ['\n'].intercalate ((cs.splitOn '\n').map (spaces ++ ·)) =
      spaces ++ cs.flatMap fun c => if c = '\n' then '\n' :: spaces else [c] := by
  induction cs with
  | nil => simp
  | cons c cs ih =>
    obtain ⟨l, ls, hsplit⟩ := List.exists_cons_of_ne_nil (List.splitOn_ne_nil '\n' cs)
    rw [List.splitOn_cons_eq_if_modifyHead]
    by_cases hc : c = '\n'
    · rw [hsplit] at ih ⊢
      simp [hc, ← ih]
    · obtain ⟨rest, hrest⟩ := exists_intercalate_cons (ls.map (spaces ++ ·))
      rw [hsplit, List.map_cons, hrest, List.append_assoc] at ih
      have hl := List.append_cancel_left ih
      simp [hsplit, hc, hrest, ← hl]

theorem indented_eq (n : Nat) (s : String) : indented n s = pad n ++ hanging n s := by
  rw [← String.toList_inj, indented, String.toList_intercalate, List.map_map, String.toList_append,
    toList_pad, hanging, String.toList_ofList]
  simp only [Function.comp_def, String.toList_ofList]
  exact intercalate_map_splitOn _ _

theorem indented_append (ht : isOneLine t = true) : indented n (s ++ t) = indented n s ++ t := by
  rw [indented_eq, indented_eq, hanging_append, hanging_of_isOneLine ht, String.append_assoc]

theorem indented_append_newline (s t : String) :
    indented n (s ++ "\n" ++ t) = indented n s ++ "\n" ++ indented n t := by
  simp only [indented_eq, hanging_append, hanging_newline, String.append_assoc]

theorem indented_indented (s : String) : indented m (indented n s) = indented (m + n) s := by
  rw [indented_eq, indented_eq, indented_eq, hanging_append, hanging_of_isOneLine (isOneLine_pad n),
    hanging_hanging, ← String.append_assoc, pad_append]

/-- The lines of `part`, with a comma behind the last, are among those of the text, but neither
first nor last. -/
def IsPart (part s : String) : Prop := ∃ before after, s = before ++ "\n" ++ part ++ ",\n" ++ after

theorem IsPart.append {part : String} (h : IsPart part s) (before after : String) :
    IsPart part (before ++ s ++ after) := by
  obtain ⟨b, a, rfl⟩ := h
  exact ⟨before ++ b, a ++ after, by simp only [String.append_assoc]⟩

theorem IsPart.trans {part whole : String} (h : IsPart part whole) (hw : IsPart whole s) :
    IsPart part s := by
  obtain ⟨before, after, rfl⟩ := hw
  have hpart := h.append (before ++ "\n") (",\n" ++ after)
  rwa [← String.append_assoc] at hpart

theorem comma_newline : ",\n" = "," ++ "\n" := rfl

theorem isOneLine_comma : isOneLine "," = true := isOneLine_of_isBasic (by decide)

theorem IsPart.indented {part : String} (h : IsPart part s) :
    IsPart (indented n part) (indented n s) := by
  obtain ⟨before, after, rfl⟩ := h
  refine ⟨Text.indented n before, Text.indented n after, ?_⟩
  calc Text.indented n (before ++ "\n" ++ part ++ ",\n" ++ after)
      = Text.indented n (before ++ "\n" ++ (part ++ ",") ++ "\n" ++ after) := by
        simp only [comma_newline, String.append_assoc]
    _ = Text.indented n before ++ "\n" ++ (Text.indented n part ++ ",") ++ "\n" ++
      Text.indented n after := by
        rw [indented_append_newline, indented_append_newline, indented_append isOneLine_comma]
    _ = Text.indented n before ++ "\n" ++ Text.indented n part ++ ",\n" ++ Text.indented n after := by
        simp only [comma_newline, String.append_assoc]

def memberAt (level : Nat) (member : String) : String := "\n" ++ pad level ++ member ++ ","

/-- Members on lines of their own between two marks. -/
def enclosed (level : Nat) (opening : String) (members : List String) (closing : String) : String :=
  opening ++ String.join (members.map (memberAt (level + 1))) ++ ("\n" ++ pad level) ++ closing

section Enclosed

variable {opening closing member : String} {members : List String}

theorem hanging_memberAt (member : String) :
    hanging n (memberAt level member) = memberAt (n + level) (hanging n member) := by
  rw [memberAt, hanging_append, hanging_append, hanging_line, hanging_of_isOneLine isOneLine_comma,
    memberAt]

theorem hanging_enclosed (ho : isOneLine opening = true) (hc : isOneLine closing = true) :
    hanging n (enclosed level opening members closing) =
      enclosed (n + level) opening (members.map (hanging n)) closing := by
  have hmembers : hanging n ∘ memberAt (level + 1) = memberAt (n + level + 1) ∘ hanging n := by
    funext member
    exact hanging_memberAt member
  rw [enclosed, hanging_append, hanging_append, hanging_append, hanging_join, hanging_line,
    hanging_of_isOneLine ho, hanging_of_isOneLine hc, List.map_map, hmembers, ← List.map_map, enclosed]

theorem isPart_enclosed (h : member ∈ members) :
    IsPart (pad (level + 1) ++ member) (enclosed level opening members closing) := by
  obtain ⟨xs, ys, rfl⟩ := List.append_of_mem h
  have hrest : ∃ after,
      String.join (ys.map (memberAt (level + 1))) ++ ("\n" ++ pad level) ++ closing = "\n" ++ after := by
    cases ys with
    | nil => exact ⟨pad level ++ closing, by simp [String.append_assoc]⟩
    | cons y ys =>
      simp only [List.map_cons, String.join_cons, memberAt, String.append_assoc]
      exact ⟨_, rfl⟩
  obtain ⟨after, hafter⟩ := hrest
  refine ⟨opening ++ String.join (xs.map (memberAt (level + 1))), after, ?_⟩
  rw [enclosed, List.map_append, List.map_cons, String.join_append, String.join_cons, comma_newline,
    memberAt]
  simp only [String.append_assoc] at hafter ⊢
  rw [hafter]

theorem hasVisibleLines_enclosed (ho : isOneLine opening = true) (hc : isOneLine closing = true)
    (hm : ∀ member ∈ members, hasVisibleLines member = true) :
    hasVisibleLines (enclosed level opening members closing) = true := by
  have hline : ∀ k, hasVisibleLines ("\n" ++ pad k) = true := by
    intro k
    rw [hasVisibleLines_append, hasVisibleLines_of_isOneLine (isOneLine_pad k)]
    decide
  have hmembers : ∀ line ∈ members.map (memberAt (level + 1)), hasVisibleLines line = true := by
    refine List.forall_mem_map.2 fun member h => ?_
    rw [memberAt, hasVisibleLines_append, hasVisibleLines_append, hline, hm member h,
      hasVisibleLines_of_isOneLine isOneLine_comma]
    rfl
  rw [enclosed, hasVisibleLines_append, hasVisibleLines_append, hasVisibleLines_append,
    hasVisibleLines_of_isOneLine ho, hasVisibleLines_of_isOneLine hc,
      hasVisibleLines_join hmembers, hline]
  rfl

end Enclosed

theorem block_eq (level : Nat) (label : String) (fields : List (String × String)) :
    block level label fields = enclosed level (label ++ "(")
      (fields.map fun f => f.1 ++ "=" ++ f.2) ")" := by
  rw [block, enclosed, List.map_map]
  simp only [Function.comp_def, memberAt, String.append_assoc]

theorem listed_eq {items : List String} (h : items ≠ []) :
    listed level items = enclosed (level + 1) "[" items "]" := by
  have hmember : memberAt (level + 1 + 1) = fun t => "\n" ++ pad (level + 2) ++ t ++ "," := rfl
  rw [listed, if_neg (by simpa using h), enclosed, hmember]
  simp only [String.append_assoc]

theorem hanging_block {label : String} {fields : List (String × String)} (hl : isOneLine label = true)
    (hf : ∀ f ∈ fields, isOneLine f.1 = true) :
    hanging n (block level label fields) =
      block (n + level) label (fields.map fun f => (f.1, hanging n f.2)) := by
  have hfield : ∀ f ∈ fields, hanging n (f.1 ++ "=" ++ f.2) = f.1 ++ "=" ++ hanging n f.2 := by
    intro f hm
    have hname : isOneLine (f.1 ++ "=") = true := 
      isOneLine_append_of_isOneLine (hf f hm) (isOneLine_of_isBasic (by decide))
    rw [hanging_append, hanging_of_isOneLine hname]
  have hopening : isOneLine (label ++ "(") = true := 
    isOneLine_append_of_isOneLine hl (isOneLine_of_isBasic (by decide))
  rw [block_eq, block_eq, hanging_enclosed hopening (isOneLine_of_isBasic (by decide)), List.map_map,
    List.map_map]
  exact congrArg (enclosed _ _ · _) (List.map_congr_left hfield)

theorem hasVisibleLines_block {label : String} {fields : List (String × String)}
    (hl : isOneLine label = true)
    (hf : ∀ f ∈ fields, isOneLine f.1 = true ∧ hasVisibleLines f.2 = true) :
    hasVisibleLines (block level label fields) = true := by
  have hopening : isOneLine (label ++ "(") = true := 
    isOneLine_append_of_isOneLine hl (isOneLine_of_isBasic (by decide))
  rw [block_eq]
  refine hasVisibleLines_enclosed hopening (isOneLine_of_isBasic (by decide))
    (List.forall_mem_map.2 fun f hm => ?_)
  obtain ⟨hname, hvalue⟩ := hf f hm
  have hequals : isOneLine "=" = true := isOneLine_of_isBasic (by decide)
  rw [hasVisibleLines_append, hasVisibleLines_append, hasVisibleLines_of_isOneLine hname,
    hasVisibleLines_of_isOneLine hequals, hvalue]
  rfl

theorem isPart_block (level : Nat) (label : String) {fields : List (String × String)}
    {f : String × String} (h : f ∈ fields) :
    IsPart (pad (level + 1) ++ (f.1 ++ "=" ++ f.2)) (block level label fields) := by
  rw [block_eq]
  exact isPart_enclosed (List.mem_map_of_mem h)

theorem hanging_listed (items : List String) :
    hanging n (listed level items) = listed (n + level) (items.map (hanging n)) := by
  have hnil : ∀ k, listed k [] = "[]" := fun _ => rfl
  have hmarks : isOneLine "[]" = true := isOneLine_of_isBasic (by decide)
  by_cases h : items = []
  · rw [h, List.map_nil, hnil, hnil, hanging_of_isOneLine hmarks]
  · rw [listed_eq h, listed_eq (by simpa using h),
      hanging_enclosed (isOneLine_of_isBasic (by decide)) (isOneLine_of_isBasic (by decide)),
      Nat.add_assoc]

theorem hasVisibleLines_listed {items : List String} (h : ∀ item ∈ items, hasVisibleLines item = true) :
    hasVisibleLines (listed level items) = true := by
  by_cases hi : items = []
  · subst hi
    exact hasVisibleLines_of_isOneLine (isOneLine_of_isBasic (s := "[]") (by decide))
  · rw [listed_eq hi]
    exact hasVisibleLines_enclosed (isOneLine_of_isBasic (by decide))
      (isOneLine_of_isBasic (by decide)) h

theorem isPart_listed {items : List String} {item : String} (h : item ∈ items) :
    IsPart (pad (level + 2) ++ item) (listed level items) := by
  rw [listed_eq (List.ne_nil_of_mem h)]
  exact isPart_enclosed h

end Lox.Text
