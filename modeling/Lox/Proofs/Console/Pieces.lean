import Lox.Proofs.Console.History
import Lox.Proofs.Grammar.Acceptance
import Lox.Proofs.Grammar.Relocation
import Lox.Proofs.Run.Relocation
import Lox.Proofs.Source.Seam

namespace Lox

open Piece

variable {s t : String}

def Problem.relocate (place : Int → Int) : Problem → Problem
  | lexical e => lexical (e.relocate place)
  | grammatical e => grammatical (e.relocate place)
  | runtime e => runtime (e.relocate place)
  | reservedPath path => reservedPath path
  | other line message hint => other (line.map place) message hint

def Escape.relocate (place : Int → Int) : Escape → Escape
  | problem p => problem (p.relocate place)
  | e => e

theorem Escape.ofResult?_relocate (place : Int → Int) (result : Except Halt Unit) :
    ofResult? (result.mapError (Halt.relocate place)) = (ofResult? result).map (relocate place) := by
  rcases result with h | _
  · cases h <;> rfl
  · rfl

theorem Stmt.execAll_append (rounds : Nat) (ss ts : List Stmt) :
    execAll rounds (ss ++ ts) = (execAll rounds ss >>= fun _ => execAll rounds ts) := by
  induction ss with
  | nil => rfl
  | cons s ss ih =>
    funext state
    simp only [List.cons_append, execAll, ih, Run.bind_apply]
    rcases s.exec rounds state with ⟨_ | _, state'⟩ <;> rfl

theorem reads_of_compile (h : (compile s).problems = []) :
    (scan s).errors = [] ∧ ∃ ts stop, (scan s).tokens = ts ++ [stop] ∧ stop.kind = .eof ∧
      Grammar.ReadsPhrase ts (.items (compile s).statements) := by
  obtain ⟨hl, hg⟩ := List.append_eq_nil_iff.1 h
  obtain ⟨ts, stop, hts, hk, hstop⟩ := scan_tokens_eq_concat s
  refine ⟨List.map_eq_nil_iff.1 hl, ts, stop, hts, hstop, ?_⟩
  have hr := Grammar.reads_of_concat hk hstop (hts ▸ List.map_eq_nil_iff.1 hg)
  rwa [← hts] at hr

theorem Grammar.ReadsPhrase.relocate {w : List Token} {ss : List Stmt} (h : ReadsPhrase w (.items ss))
    (place : Int → Int) :
    ReadsPhrase (w.map (Token.relocate place)) (.items (ss.map (Stmt.relocate place))) := by
  have hp : parse (w.map (Token.relocate place) ++ [(bare .eof).relocate place]) =
      ⟨ss.map (Stmt.relocate place), []⟩ := by
    have hm :
        parse ((w ++ [bare .eof]).map (Token.relocate place)) =
          (parse (w ++ [bare .eof])).relocate place :=
      parse_map ⟨bare .eof, by simp, rfl⟩
    rw [List.map_append, parse_of_reads h.kind_ne_eof rfl h] at hm
    exact hm
  have hk : ∀ t ∈ w.map (Token.relocate place), t.kind ≠ .eof := by
    simpa [List.forall_mem_map] using h.kind_ne_eof
  have hr := reads_of_concat hk rfl (congrArg Parse.errors hp)
  rwa [hp] at hr

theorem compile_append_newline (hs : (compile s).problems = []) (ht : (compile t).problems = [])
    (hc : ¬ EndsInComment s.toList) :
    compile (s ++ "\n" ++ t) =
      ⟨(compile s).statements ++
        (compile t).statements.map (Stmt.relocate (down (s.toList.count '\n' + 1))), []⟩ := by
  obtain ⟨hsl, ts, stop, hts, _, hrs⟩ := reads_of_compile hs
  obtain ⟨htl, us, stop', hus, hstop, hrt⟩ := reads_of_compile ht
  obtain ⟨htokens, herrors⟩ := scan_append_newline (t := t) (not_unclosed_of_errors_eq_nil hsl) hc
  generalize down (s.toList.count '\n' + 1) = place at *
  have hr := hrs.append (hrt.relocate place)
  have hparse : parse ((ts ++ us.map (Token.relocate place)) ++ [stop'.relocate place]) =
      ⟨(compile s).statements ++ (compile t).statements.map (Stmt.relocate place), []⟩ :=
    Grammar.parse_of_reads hr.kind_ne_eof hstop hr
  rw [hts, hus, List.dropLast_concat, List.map_append, ← List.append_assoc] at htokens
  rw [hsl, htl] at herrors
  simp only [compile, htokens, herrors, List.map_singleton, hparse]
  rfl

/-- Running a program in two pieces is running it in one. -/
theorem Session.run_append_newline (hs : (compile s).problems = []) (ht : (compile t).problems = [])
    (hc : ¬ EndsInComment s.toList) :
    (compile (s ++ "\n" ++ t)).problems = [] ∧ ∀ (rounds : Nat) (session : Session),
      (∀ after, session.run rounds s = (after, none) →
        session.run rounds (s ++ "\n" ++ t) = ((after.run rounds t).1,
          (after.run rounds t).2.map (Escape.relocate (down (s.toList.count '\n' + 1))))) ∧
      ∀ after e, session.run rounds s = (after, some e) →
        session.run rounds (s ++ "\n" ++ t) = (after, some e) := by
  have hst := compile_append_newline hs ht hc
  have hp : (compile (s ++ "\n" ++ t)).problems = [] := by rw [hst]
  refine ⟨hp, fun rounds session => ?_⟩
  rw [run_of_fit hs, run_of_fit hp, hst, ← Stmt.relocateAll_eq_map, Stmt.execAll_append,
    Stmt.execAll_relocate, Run.bind_apply]
  rcases Stmt.execAll rounds (compile s).statements session.state with ⟨h | _, state⟩
  · refine ⟨fun after he => ?_, fun after e he => he⟩
    cases (Prod.mk.inj he).2
  · refine ⟨fun after he => ?_, fun after e he => ?_⟩
    · obtain ⟨rfl, -⟩ := Prod.mk.inj he
      simp only [run_of_fit ht, ← Escape.ofResult?_relocate, Run.relocate]
    · cases (Prod.mk.inj he).2

def Escape.report? : Escape → Option (Option Int × String)
  | problem p => some (p.line?, p.message)
  | _ => none

/-- The first piece ends in a comment and takes two lines, so that an error on the second line of
the second piece is one on the fourth line of the whole. -/
theorem Session.run_append_newline_failing :
    let s := "var a = \"x\";\n// one"
    let t := "print a;\nprint b;"
    let session : Session := ⟨{ fatal := false, color := false }, .fresh⟩
    let whole := session.run 0 (s ++ "\n" ++ t)
    (compile s).problems = [] ∧ (compile t).problems = [] ∧ ¬ EndsInComment s.toList ∧
      whole.1.state.output = "x\n" ∧
        whole.2.bind Escape.report? = some (some 4, "Undefined variable 'b'.") := by
  intro s t session whole
  have hs : (compile s).problems = [] := List.isEmpty_iff.1 (by decide +kernel)
  have ht : (compile t).problems = [] := List.isEmpty_iff.1 (by decide +kernel)
  have hc : ¬ EndsInComment s.toList := by
    rintro ⟨ps, body, h, -⟩
    have hl : (split s.toList).getLast?.map text = some "// one".toList := by decide +kernel
    rw [← h.eq_split, List.getLast?_concat] at hl
    cases hl
  have hnone : session.run 0 s = ((session.run 0 s).1, none) :=
    Prod.ext rfl (Option.isNone_iff_eq_none.1 (by decide +kernel))
  have hwhole := ((run_append_newline hs ht hc).2 0 session).1 _ hnone
  refine ⟨hs, ht, hc, ?_⟩
  simp only [whole, hwhole]
  decide +kernel

end Lox
